import Provision.Graph.Basic
import Provision.Lifecycle.Status
import Provision.Stack.Timer

/-! What can go wrong with a stack. A backend's own failures are `backend`; all else is found by the
manager of the stacks. One of them is no error that anybody gets to handle: an overflow of the clock ends
whatever is under way. -/
namespace Provision

/-- What was waited for. -/
inductive Operation
  | create
  | delete
  deriving DecidableEq

def Operation.name : Operation → String
  | create => "create"
  | delete => "delete"

inductive StackError
  | createFailed (stack reason : String)
  | deleteFailed (stack reason : String)
  /-- The limit is in nanoseconds. -/
  | timeout (stack : String) (operation : Operation) (limit : Nat)
  | interrupted (stack : String)
  | backend (message : String)
  | alreadyExists (stack : String)
  | lifecycle (error : LifecycleError)
  | compile (error : GraphError)
  /-- The clock cannot tell the moment up to which to wait. -/
  | overflow
  deriving DecidableEq

namespace StackError

/-- A limit is told in whole seconds. -/
def message : StackError → String
  | createFailed stack reason => "stack '" ++ stack ++ "' creation failed: " ++ reason
  | deleteFailed stack reason => "stack '" ++ stack ++ "' deletion failed: " ++ reason
  | timeout stack operation limit =>
    "stack '" ++ stack ++ "' " ++ operation.name ++ " timeout after " ++ toString (limit / Timer.second) ++ "s"
  | interrupted stack => "deploy of stack '" ++ stack ++ "' interrupted"
  | backend message => "Backend error: " ++ message
  | alreadyExists stack => "stack '" ++ stack ++ "' already exists"
  | lifecycle error => "Lifecycle error: " ++ error.message
  | compile error => "Compile error: " ++ error.message
  | overflow => "overflow when adding duration to instant"

def isTimeout : StackError → Bool
  | timeout .. => true
  | _ => false

def isInterrupted : StackError → Bool
  | interrupted _ => true
  | _ => false

/-- Whether a deletion that failed so is worth another attempt. -/
def isRetryable : StackError → Bool
  | deleteFailed .. | timeout .. | backend _ => true
  | _ => false

end StackError

/-- The operation came to its end, with an error or without. -/
def Returned {α : Type} (result : Except StackError α) : Prop := result ≠ .error .overflow

end Provision
