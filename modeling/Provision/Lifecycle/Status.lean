import Provision.Text.Blank

/-! The statuses of a stack, the commands that move it from one to the next, and the moves that are
refused. Every status a service reports goes through `Status.next`. -/
namespace Provision

inductive Status
  | notCreated | creating | createComplete | createFailed | deleting | deleteComplete | deleteFailed
  deriving DecidableEq

inductive Command
  | submit | createSucceeded | createFailed | beginDelete | deleteSucceeded | deleteFailed
  deriving DecidableEq

def Command.name : Command → String
  | .submit => "Submit"
  | .createSucceeded => "CreateSucceeded"
  | .createFailed => "CreateFailed"
  | .beginDelete => "BeginDelete"
  | .deleteSucceeded => "DeleteSucceeded"
  | .deleteFailed => "DeleteFailed"

/-- Why a move is refused, or a status word not understood. -/
inductive LifecycleError
  | finished
  | alreadySubmitted (status : Status)
  | noMove (status : Status) (command : Command)
  | unknownStatus (word : String)
  deriving DecidableEq

namespace Status

/-- The canonical word of a status. -/
def word : Status → String
  | notCreated => "NOT_CREATED"
  | creating => "CREATING"
  | createComplete => "CREATE_COMPLETE"
  | createFailed => "CREATE_FAILED"
  | deleting => "DELETING"
  | deleteComplete => "DELETE_COMPLETE"
  | deleteFailed => "DELETE_FAILED"

/-- Every word a service may report, with the status it stands for. -/
def words : List (String × Status) :=
  [("NOT_CREATED", notCreated),
   ("CREATING", creating), ("CREATE_IN_PROGRESS", creating), ("INIT_IN_PROGRESS", creating),
   ("ROLLBACK_IN_PROGRESS", creating),
   ("CREATE_COMPLETE", createComplete),
   ("CREATE_FAILED", createFailed), ("ROLLBACK_COMPLETE", createFailed),
   ("ROLLBACK_FAILED", createFailed),
   ("DELETING", deleting), ("DELETE_IN_PROGRESS", deleting),
   ("DELETE_COMPLETE", deleteComplete),
   ("DELETE_FAILED", deleteFailed)]

/-- Reads a status word; blanks around it and the case of ASCII letters do not matter. -/
def read (text : String) : Except LifecycleError Status :=
  let word := String.ofList ((Text.trim text.toList).map Char.toUpper)
  match words.lookup word with
  | some status => .ok status
  | none => .error (.unknownStatus word)

/-- The command that takes a stack to an observed status, if a move is needed at all. -/
def commandTowards (status observed : Status) : Option Command :=
  if status = observed then none else
    match observed with
    | notCreated => none
    | creating => some .submit
    | createComplete => some .createSucceeded
    | createFailed => some .createFailed
    | deleting => some .beginDelete
    | deleteComplete => some .deleteSucceeded
    | deleteFailed => some .deleteFailed

/-- The status after a command, or why the command is refused. -/
def next : Status → Command → Except LifecycleError Status
  | notCreated, .submit => .ok creating
  | creating, .createSucceeded => .ok createComplete
  | creating, .createFailed => .ok createFailed
  | creating, .beginDelete => .ok deleting
  | createComplete, .beginDelete => .ok deleting
  | createFailed, .beginDelete => .ok deleting
  | deleting, .deleteSucceeded => .ok deleteComplete
  | deleting, .deleteFailed => .ok deleteFailed
  | deleteFailed, .beginDelete => .ok deleting
  | deleteComplete, _ => .error .finished
  | status, .submit => .error (.alreadySubmitted status)
  | status, command => .error (.noMove status command)

def accepts (status : Status) (command : Command) : Bool :=
  match status.next command with
  | .ok _ => true
  | .error _ => false

end Status

/-- What a move tells the operator. -/
structure Notice where
  warnings : List String := []
  isCritical : Bool := false
  deriving DecidableEq

/-- The notice of an accepted move. -/
def Status.notice : Status → Command → Notice
  | .creating, .createFailed => ⟨["Stack creation failed"], true⟩
  | .creating, .beginDelete => ⟨["Deleting a stack that is still being created"], false⟩
  | .createFailed, .beginDelete => ⟨["Cleaning up a stack that failed to create"], false⟩
  | .deleting, .deleteFailed => ⟨["Stack deletion failed"], true⟩
  | .deleteFailed, .beginDelete => ⟨["Resubmitting stack deletion"], false⟩
  | _, _ => {}

def LifecycleError.message : LifecycleError → String
  | finished => "Invalid transition from " ++ Status.deleteComplete.word ++ " to any state"
  | alreadySubmitted status =>
    "Business rule violated: stack already submitted (" ++ status.word ++ ")"
  | noMove status command => "Invalid transition from " ++ status.word ++ " to " ++ command.name
  | unknownStatus word => "Business rule violated: unknown stack status '" ++ word ++ "'"

end Provision
