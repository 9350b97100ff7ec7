import Provision.Lifecycle.Status

/-! A lifecycle with its history. A refused command leaves both the status and the history as they
were, so the history is the list of the moves that were made. -/
namespace Provision

/-- One accepted move. -/
structure Move where
  source : Status
  command : Command
  target : Status
  deriving DecidableEq

structure Lifecycle where
  status : Status
  history : List Move := []
  deriving DecidableEq

namespace Lifecycle

/-- The lifecycle of a stack that nobody has submitted. -/
def fresh : Lifecycle := ⟨.notCreated, []⟩

def apply (l : Lifecycle) (command : Command) : Except LifecycleError Lifecycle :=
  match l.status.next command with
  | .ok target => .ok ⟨target, l.history ++ [⟨l.status, command, target⟩]⟩
  | .error e => .error e

/-- Applies the command if it is accepted and does nothing if it is refused. -/
def attempt (l : Lifecycle) (command : Command) : Lifecycle :=
  match l.apply command with
  | .ok l' => l'
  | .error _ => l

/-- Makes the move that an observed status asks for, if it asks for one. -/
def observe (l : Lifecycle) (observed : Status) : Except LifecycleError Lifecycle :=
  match l.status.commandTowards observed with
  | some command => l.apply command
  | none => .ok l

end Lifecycle
end Provision
