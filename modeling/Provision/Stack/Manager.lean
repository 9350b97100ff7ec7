import Provision.Stack.Record
import Provision.Stack.Timer

/-! The manager of the stacks of one backend: the records, the clock, and the log of what happened.
Here are its single steps: a call, a pause, a new record, a change of one record. -/
namespace Provision

/-- How a manager passes its time, and how much of it there is. Durations are in nanoseconds. -/
structure Timing where
  pollInterval : Nat := 2 * Timer.second
  deleteTimeout : Nat := 900 * Timer.second
  deleteRetries : Nat := 3
  retryBackoff : Nat := 2 * Timer.second
  /-- What the clock cannot tell any more, in nanoseconds from its start. -/
  horizon : Nat := Timer.horizon
  deriving DecidableEq

structure Manager (σ : Type) where
  timing : Timing
  backend : σ
  records : List Stack := []
  /-- The time in milliseconds. -/
  clock : Nat := 0
  /-- The moment from which creation is cancelled, if it is. -/
  cancelAt : Option Nat := none
  /-- Newest first. -/
  log : List LogEntry := []

namespace Manager
variable {σ : Type}

def find? (m : Manager σ) (name : String) : Option Stack := m.records.find? fun s => s.name == name

/-- The names of the stacks that are not deleted, in the order of creation. -/
def tracked (m : Manager σ) : List String :=
  (m.records.filter fun s => s.status ≠ .deleteComplete).map Stack.name

/-- The time in nanoseconds. -/
def now (m : Manager σ) : Nat := Timer.tick * m.clock

/-- The end of a wait that starts now, unless the clock cannot tell it. -/
def deadline? (m : Manager σ) (timeout : Nat) : Option Nat :=
  if m.now + timeout < m.timing.horizon then some (m.now + timeout) else none

/-- Whether creation is cancelled at a time. -/
def cancelledBy (m : Manager σ) (time : Nat) : Bool :=
  match m.cancelAt with
  | some c => decide (c ≤ time)
  | none => false

/-- Cancels creation from now on, for good. -/
def cancel (m : Manager σ) : Manager σ :=
  if m.cancelledBy m.clock then m else { m with cancelAt := some m.clock }

/-- Takes note of a call that starts now and takes some time. -/
def called (m : Manager σ) (backend : σ) (event : Event) (took : Nat) : Manager σ :=
  { m with backend, clock := m.clock + took, log := ⟨m.clock, event⟩ :: m.log }

def askStatus (b : Backend σ) (h : Handle) (waiting : Option Operation) (m : Manager σ) :
    Except StackError Report × Manager σ :=
  let (reply, s) := b.status m.clock h m.backend
  (reply.result, m.called s (.status h waiting reply.result) reply.took)

def askOutputs (b : Backend σ) (h : Handle) (m : Manager σ) :
    Except StackError OutputValues × Manager σ :=
  let (reply, s) := b.outputs m.clock h m.backend
  (reply.result, m.called s (.outputs h reply.result) reply.took)

def askDelete (b : Backend σ) (h : Handle) (m : Manager σ) : Except StackError Bool × Manager σ :=
  let (reply, s) := b.delete m.clock h m.backend
  (reply.result, m.called s (.delete h reply.result) reply.took)

/-- Submits a graph. A manager that is cancelled makes no call, and one that is cancelled during the
call does not wait for the answer: both have `none` for it. -/
def askSubmit (b : Backend σ) (name : String) (graph : Graph) (parameters : SortedMap String)
    (m : Manager σ) : Option (Except StackError Handle) × Manager σ :=
  if m.cancelledBy m.clock then (none, m)
  else
    let (reply, s) := b.submit m.clock name graph parameters m.backend
    match m.cancelAt with
    | some c =>
      if c ≤ m.clock + reply.took then
        (none, m.called s (.submit name graph parameters none) (c - m.clock))
      else
        (some reply.result,
          m.called s (.submit name graph parameters (some reply.result)) reply.took)
    | none =>
      (some reply.result,
        m.called s (.submit name graph parameters (some reply.result)) reply.took)

/-- Lets time pass, as a timer does. -/
def sleep (duration : Nat) (m : Manager σ) : Manager σ :=
  { m with clock := m.clock + Timer.span duration }

/-- Lets time pass unless creation is cancelled before the end; `false` if it is. -/
def pause (duration : Nat) (m : Manager σ) : Bool × Manager σ :=
  match m.cancelAt with
  | some c =>
    if c ≤ m.clock then (false, m)
    else if c < m.clock + Timer.span duration then (false, { m with clock := c })
    else (true, m.sleep duration)
  | none => (true, m.sleep duration)

/-- Changes the record of a stack. -/
def update (name : String) (f : Stack.Update) (m : Manager σ) :
    Except StackError Unit × Manager σ :=
  match m.find? name with
  | some s => ((f s).1, { m with records := Stack.change name (fun s => (f s).2) m.records })
  | none => (.error (.backend ("stack '" ++ name ++ "' is not tracked")), m)

/-- Makes a new record. It takes the place of one whose stack was never submitted or is deleted. -/
def register (name : String) (m : Manager σ) : Except StackError (Manager σ) :=
  let log := ⟨m.clock, .registered name⟩ :: m.log
  match m.find? name with
  | some s =>
    if s.status = .notCreated ∨ s.status = .deleteComplete then
      .ok { m with log, records := Stack.change name (fun _ => { name }) m.records }
    else .error (.alreadyExists name)
  | none => .ok { m with log, records := m.records ++ [{ name }] }

/-- Runs something that is cancelled if it has not ended after the delay. If it ends earlier nothing
is cancelled. -/
def cancellingAfter {α : Type} (delay : Option Nat) (act : Manager σ → α × Manager σ)
    (m : Manager σ) : α × Manager σ :=
  match delay with
  | none => act m
  | some d =>
    let time := m.clock + Timer.span d
    if m.cancelledBy time then act m
    else
      let (a, m') := act { m with cancelAt := some time }
      (a, if m'.cancelledBy m'.clock then m' else { m' with cancelAt := m.cancelAt })

end Manager
end Provision
