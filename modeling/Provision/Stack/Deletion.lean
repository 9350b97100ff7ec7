import Provision.Stack.Creation

/-! Deleting stacks. An attempt asks for the deletion and may wait for it; a failed attempt is repeated
a bounded number of times, from the start. Cancellation does not stop a deletion. -/
namespace Provision

/-- What a report means to someone who waits for a deletion. -/
inductive DeleteVerdict
  | complete
  | failed (reason : String)
  | pending
  deriving DecidableEq

def Report.deleteVerdict (r : Report) : DeleteVerdict :=
  match Status.read r.status with
  | .ok .deleteComplete => .complete
  | .ok .deleteFailed => .failed (r.reason.getD r.status)
  | _ => .pending

/-- The reason recorded for a deletion that the backend refuses. -/
def refusedReason : String := "backend refused the delete request"

namespace Manager
variable {σ : Type}

def awaitDeletion (b : Backend σ) (h : Handle) (timeout deadline : Nat) :
    Nat → Manager σ → Except StackError Unit × Manager σ
  | 0, m => (.error (.timeout h.name .delete timeout), m)
  | polls + 1, m =>
    match m.askStatus b h (some .delete) with
    | (.error e, m) => (.error e, m)
    | (.ok report, m) =>
      match report.deleteVerdict with
      | .complete => m.update h.name (Stack.observe .deleteComplete)
      | .failed reason =>
        match m.update h.name (Stack.failed reason .deleteFailed) with
        | (.error e, m) => (.error e, m)
        | (.ok _, m) => (.error (.deleteFailed h.name reason), m)
      | .pending =>
        if deadline ≤ m.now then (.error (.timeout h.name .delete timeout), m)
        else
          awaitDeletion b h timeout deadline polls
            (m.sleep (min m.timing.pollInterval (deadline - m.now)))

def waitForDeletion (b : Backend σ) (h : Handle) (m : Manager σ) :
    Except StackError Unit × Manager σ :=
  let timeout := m.timing.deleteTimeout
  match m.deadline? timeout with
  | none => (.error .overflow, m)
  | some deadline => awaitDeletion b h timeout deadline (pollLimit m.timing.pollInterval timeout) m

/-- One attempt: the request, and with `block` the wait for its end. -/
def deleteOnce (b : Backend σ) (h : Handle) (block : Bool) (m : Manager σ) :
    Except StackError Unit × Manager σ :=
  match m.askDelete b h with
  | (.error e, m) => (.error e, m)
  | (.ok false, m) =>
    match m.update h.name (Stack.refused refusedReason) with
    | (.error e, m) => (.error e, m)
    | (.ok _, m) => (.error (.deleteFailed h.name refusedReason), m)
  | (.ok true, m) =>
    match m.update h.name Stack.deleting with
    | (.error e, m) => (.error e, m)
    | (.ok _, m) => if block then m.waitForDeletion b h else (.ok (), m)

/-- Up to `attempts + 1` attempts with a pause between two; the last failure counts. -/
def deleteRepeatedly (b : Backend σ) (h : Handle) (block : Bool) :
    Nat → Manager σ → Except StackError Unit × Manager σ
  | 0, m => m.deleteOnce b h block
  | attempts + 1, m =>
    match m.deleteOnce b h block with
    | (.ok _, m) => (.ok (), m)
    | (.error e, m) =>
      if e.isRetryable then deleteRepeatedly b h block attempts (m.sleep m.timing.retryBackoff)
      else (.error e, m)

/-- The handle of a stack that the backend may still have. -/
def deletable? (m : Manager σ) (name : String) : Option Handle :=
  (m.records.find? fun s => s.name == name && s.status ≠ .deleteComplete).bind Stack.handle?

/-- Deletes a stack in at most `retries` attempts, at least one. A stack that was never submitted or
is deleted needs nothing. -/
def delete (b : Backend σ) (name : String) (block : Bool) (retries : Nat) (m : Manager σ) :
    Except StackError Unit × Manager σ :=
  match m.deletable? name with
  | none => (.ok (), m)
  | some h => m.deleteRepeatedly b h block (max retries 1 - 1)

/-- Deletes the stacks one after another; the first failure counts, and one before them all. An overflow
is no failure to go on after. -/
def deleteEach (b : Backend σ) (failure : Option StackError) :
    List String → Manager σ → Except StackError Unit × Manager σ
  | [], m => (failure.elim (.ok ()) .error, m)
  | name :: rest, m =>
    match m.delete b name true m.timing.deleteRetries with
    | (.ok _, m) => deleteEach b failure rest m
    | (.error e, m) =>
      if e = .overflow then (.error e, m) else deleteEach b (failure <|> some e) rest m

/-- Deletes every tracked stack, the newest first, and goes on after a failure. -/
def deleteAll (b : Backend σ) (m : Manager σ) : Except StackError Unit × Manager σ :=
  m.deleteEach b none m.tracked.reverse

end Manager
end Provision
