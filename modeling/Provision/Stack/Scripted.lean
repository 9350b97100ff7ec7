import Provision.Stack.Backend
import Provision.Stack.Timer

/-! A backend that answers each kind of call from a list of answers, one after another. The last answer
of a list is repeated. -/
namespace Provision

structure Script where
  submits : List (Except StackError String × Nat)
  statuses : List (Except StackError Report)
  outputs : List (Except StackError OutputValues)
  deletes : List (Except StackError Bool)

namespace Script

def exhausted {α : Type} : Except StackError α := .error (.backend "no answer left")

/-- The next answer and those after it. -/
def next {α : Type} (default : α) : List α → α × List α
  | [] => (default, [])
  | [a] => (a, [a])
  | a :: rest => (a, rest)

/-- Only a submission takes time: that of a timer set to what its answer says. -/
def backend : Backend Script where
  submit _ name _ _ s :=
    let ((answer, took), submits) := next (exhausted, 0) s.submits
    (⟨answer.map (⟨·, name⟩), Timer.span took⟩, { s with submits })
  status _ _ s :=
    let (answer, statuses) := next exhausted s.statuses
    (⟨answer, 0⟩, { s with statuses })
  outputs _ _ s :=
    let (answer, outputs) := next exhausted s.outputs
    (⟨answer, 0⟩, { s with outputs })
  delete _ _ s :=
    let (answer, deletes) := next exhausted s.deletes
    (⟨answer, 0⟩, { s with deletes })

end Script
end Provision
