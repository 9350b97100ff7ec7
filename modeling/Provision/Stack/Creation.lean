import Provision.Stack.Manager

/-! Creating a stack: the record first, then the submission, then, if the caller wants to wait, polls
until the backend decides, the deadline passes, or creation is cancelled. -/
namespace Provision

/-- How to create: wait for the outcome up to a limit in nanoseconds, or do not wait. -/
inductive CreateOptions
  | blocking (timeout : Nat)
  | nonBlocking
  deriving DecidableEq

/-- The limit where none is given. -/
def CreateOptions.standard : CreateOptions := .blocking (3600 * Timer.second)

/-- What a report means to someone who waits for a creation. -/
inductive CreateVerdict
  | complete
  | failed (reason : String)
  | unexpected (status : Status)
  | pending
  deriving DecidableEq

/-- A word that is not understood decides nothing. -/
def Report.createVerdict (r : Report) : CreateVerdict :=
  match Status.read r.status with
  | .ok .createComplete => .complete
  | .ok .createFailed => .failed (r.reason.getD r.status)
  | .ok .creating => .pending
  | .ok status => .unexpected status
  | .error _ => .pending

/-- How often a wait polls at most: at its start, after every full interval, and at the deadline.
Polls without an interval let no time pass, so it is their number that ends such a wait. -/
def pollLimit (interval timeout : Nat) : Nat :=
  if interval = 0 then UInt32.size else Timer.ticks timeout / Timer.span interval + 2

namespace Manager
variable {σ : Type}

/-- Polls until there is a verdict. The wait ends at the deadline with a poll of its own. -/
def awaitCreation (b : Backend σ) (h : Handle) (timeout deadline : Nat) :
    Nat → Manager σ → Except StackError Unit × Manager σ
  | 0, m => (.error (.timeout h.name .create timeout), m)
  | polls + 1, m =>
    match m.askStatus b h (some .create) with
    | (.error e, m) => (.error e, m)
    | (.ok report, m) =>
      match report.createVerdict with
      | .complete => m.update h.name (Stack.observe .createComplete)
      | .failed reason =>
        match m.update h.name (Stack.failed reason .createFailed) with
        | (.error e, m) => (.error e, m)
        | (.ok _, m) => (.error (.createFailed h.name reason), m)
      | .unexpected status =>
        (.error (.backend ("unexpected status " ++ status.word ++ " while creating stack '"
          ++ h.name ++ "'")), m)
      | .pending =>
        if deadline ≤ m.now then (.error (.timeout h.name .create timeout), m)
        else
          match m.pause (min m.timing.pollInterval (deadline - m.now)) with
          | (false, m) => (.error (.interrupted h.name), m)
          | (true, m) => awaitCreation b h timeout deadline polls m

def waitForCreation (b : Backend σ) (h : Handle) (timeout : Nat) (m : Manager σ) :
    Except StackError Unit × Manager σ :=
  match m.deadline? timeout with
  | none => (.error .overflow, m)
  | some deadline => awaitCreation b h timeout deadline (pollLimit m.timing.pollInterval timeout) m

/-- Changes a record and returns what it is then. -/
def updated (name : String) (f : Stack.Update) (m : Manager σ) :
    Except StackError Stack × Manager σ :=
  match m.update name f with
  | (.error e, m) => (.error e, m)
  | (.ok _, m) =>
    match m.find? name with
    | some s => (.ok s, m)
    | none => (.error (.backend ("stack '" ++ name ++ "' is not tracked")), m)

/-- What follows a submission that was answered with a handle. -/
def finishCreation (b : Backend σ) (name : String) (h : Handle) (options : CreateOptions)
    (m : Manager σ) : Except StackError Stack × Manager σ :=
  match m.update name (Stack.submitted h.id) with
  | (.error e, m) => (.error e, m)
  | (.ok _, m) =>
    match options with
    | .nonBlocking => m.updated name fun s => (.ok (), s)
    | .blocking timeout =>
      match m.waitForCreation b h timeout with
      | (.error e, m) => (.error e, m)
      | (.ok _, m) =>
        match m.askOutputs b h with
        | (.error e, m) => (.error e, m)
        | (.ok values, m) => m.updated name (Stack.withOutputs (flattenOutputs values))

/-- Creates a stack. The record is made before the backend is called, so that a submission that was
given up still leaves something to clean up. -/
def create (b : Backend σ) (name : String) (graph : Graph) (parameters : SortedMap String)
    (options : CreateOptions) (m : Manager σ) : Except StackError Stack × Manager σ :=
  match m.register name with
  | .error e => (.error e, m)
  | .ok m =>
    match m.askSubmit b name graph parameters with
    | (none, m) => (.error (.interrupted name), m)
    | (some (.error e), m) => (.error e, m)
    | (some (.ok h), m) => m.finishCreation b name h options

end Manager
end Provision
