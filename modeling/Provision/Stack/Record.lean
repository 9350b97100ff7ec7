import Provision.Json.Text
import Provision.Lifecycle.Run
import Provision.Stack.Backend

/-! What is recorded of a stack: its id once there is one, its outputs, the last reason for a failure,
and its lifecycle. -/
namespace Provision

structure Stack where
  name : String
  id : Option String := none
  outputs : SortedMap String := ∅
  reason : Option String := none
  lifecycle : Lifecycle := .fresh
  deriving DecidableEq

namespace Stack

def status (s : Stack) : Status := s.lifecycle.status

def handle? (s : Stack) : Option Handle := s.id.map fun id => ⟨id, s.name⟩

/-- A change of a record that may end in an error. What was changed before the error stays. -/
abbrev Update := Stack → Except StackError Unit × Stack

def apply (command : Command) : Update := fun s =>
  match s.lifecycle.apply command with
  | .ok l => (.ok (), { s with lifecycle := l })
  | .error e => (.error (.lifecycle e), s)

def observe (observed : Status) : Update := fun s =>
  match s.lifecycle.observe observed with
  | .ok l => (.ok (), { s with lifecycle := l })
  | .error e => (.error (.lifecycle e), s)

/-- The record of a stack that was submitted under this id. -/
def submitted (id : String) : Update := fun s => apply .submit { s with id := some id }

/-- A failure that was observed, with its reason. -/
def failed (reason : String) (observed : Status) : Update := fun s =>
  observe observed { s with reason := some reason }

def refused (reason : String) : Update := fun s => (.ok (), { s with reason := some reason })

/-- A deletion that was accepted; one that is under way already is the same deletion. -/
def deleting : Update := fun s =>
  if s.status = .deleting then (.ok (), s) else apply .beginDelete s

def withOutputs (outputs : SortedMap String) : Update := fun s => (.ok (), { s with outputs })

/-- Changes the first record of that name. -/
def change (name : String) (f : Stack → Stack) : List Stack → List Stack
  | [] => []
  | s :: rest => if s.name = name then f s :: rest else s :: change name f rest

end Stack

/-- The text of an output: a string as it is, null as nothing, anything else as compact JSON. -/
def outputText : Json → String
  | .str s => s
  | .null => ""
  | value => value.compact

/-- The outputs as a table of texts; of two values for one key the later counts. -/
def flattenOutputs (values : OutputValues) : SortedMap String :=
  .ofList (values.map fun e => (e.1, outputText e.2))

end Provision
