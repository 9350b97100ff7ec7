import Provision.Stack.Creation

/-! Two creations of one name at a time. A creation lets go of the records while it calls the backend and
while it sleeps, and another creation may go on meanwhile. Here a creation is cut into steps at all the
moments where that can happen, and two of them take turns in any order. -/
namespace Provision

/-- What is created, and how. -/
structure Creation where
  graph : Graph
  parameters : SortedMap String := ∅
  options : CreateOptions := .standard

/-- A call to the backend whose answer is on its way, with the time at which it was made. -/
structure Sent (α : Type) where
  time : Nat
  reply : Reply α

def Sent.due {α : Type} (call : Sent α) : Nat := call.time + call.reply.took

/-- A wait: its limit and its end, in nanoseconds, and the number of polls that are left. -/
structure Wait where
  timeout : Nat
  deadline : Nat
  polls : Nat

/-- How far a creation has come. One that has ended keeps the handle under which the backend accepted its
submission. -/
inductive Stage
  | called
  | refused (error : StackError)
  | registered
  | submitting (call : Sent Handle)
  | submitted (handle : Handle)
  | recorded (handle : Handle)
  | polling (handle : Handle) (wait : Wait) (call : Sent Report)
  | told (handle : Handle) (wait : Wait) (report : Report)
  | asleep (handle : Handle) (wait : Wait) (since duration : Nat)
  | fetching (handle : Handle) (call : Sent OutputValues)
  | fetched (handle : Handle) (values : OutputValues)
  | ended (accepted : Option Handle) (result : Except StackError Stack)

namespace Stage

/-- The handle under which the backend accepted the submission, once it is sent. -/
def accepted? : Stage → Option Handle
  | called | refused _ | registered => none
  | submitting call => call.reply.result.toOption
  | submitted h | recorded h | polling h .. | told h .. | asleep h .. | fetching h _ | fetched h _ => some h
  | ended accepted _ => accepted

/-- The record is made, and the id is not recorded yet. -/
def underWay : Stage → Bool
  | registered | submitting _ | submitted _ => true
  | _ => false

def finished : Stage → Bool
  | refused _ | ended .. => true
  | _ => false

end Stage

namespace Manager
variable {σ : Type}

/-- Takes note of a call that was made at a time and is answered when it is due, or later if the caller
was not there to hear it. -/
def answered (event : Event) (sent due : Nat) (m : Manager σ) : Manager σ :=
  { m with clock := max m.clock due, log := ⟨sent, event⟩ :: m.log }

/-- Sends the next poll of a wait, if one is left. -/
def sendPoll (b : Backend σ) (h : Handle) (w : Wait) (m : Manager σ) : Stage × Manager σ :=
  match w.polls with
  | 0 => (.ended (some h) (.error (.timeout h.name .create w.timeout)), m)
  | polls + 1 =>
    let (reply, s) := b.status m.clock h m.backend
    (.polling h { w with polls } ⟨m.clock, reply⟩, { m with backend := s })

/-- Sends the call for the outputs. -/
def sendFetch (b : Backend σ) (h : Handle) (m : Manager σ) : Stage × Manager σ :=
  let (reply, s) := b.outputs m.clock h m.backend
  (.fetching h ⟨m.clock, reply⟩, { m with backend := s })

end Manager

/-- The next step of a creation. -/
def Creation.step {σ : Type} (b : Backend σ) (name : String) (k : Creation) :
    Stage → Manager σ → Stage × Manager σ
  | .called, m =>
    match m.register name with
    | .error e => (.refused e, m)
    | .ok m => (.registered, m)
  | .registered, m =>
    if m.cancelledBy m.clock then (.ended none (.error (.interrupted name)), m)
    else
      let (reply, s) := b.submit m.clock name k.graph k.parameters m.backend
      (.submitting ⟨m.clock, reply⟩, { m with backend := s })
  | .submitting call, m =>
    match m.cancelAt.filter (· ≤ max m.clock call.due) with
    | some c =>
      (.ended call.reply.result.toOption (.error (.interrupted name)),
        m.answered (.submit name k.graph k.parameters none) call.time (min c call.due))
    | none =>
      let m := m.answered (.submit name k.graph k.parameters (some call.reply.result)) call.time call.due
      match call.reply.result with
      | .error e => (.ended none (.error e), m)
      | .ok h => (.submitted h, m)
  | .submitted h, m =>
    match m.update name (Stack.submitted h.id) with
    | (.error e, m) => (.ended (some h) (.error e), m)
    | (.ok _, m) => (.recorded h, m)
  | .recorded h, m =>
    match k.options with
    | .nonBlocking =>
      let (result, m) := m.updated name fun s => (.ok (), s)
      (.ended (some h) result, m)
    | .blocking timeout =>
      match m.deadline? timeout with
      | none => (.ended (some h) (.error .overflow), m)
      | some deadline => m.sendPoll b h ⟨timeout, deadline, pollLimit m.timing.pollInterval timeout⟩
  | .polling h w call, m =>
    let m := m.answered (.status h (some .create) call.reply.result) call.time call.due
    match call.reply.result with
    | .error e => (.ended (some h) (.error e), m)
    | .ok report => (.told h w report, m)
  | .told h w report, m =>
    match report.createVerdict with
    | .complete =>
      match m.update h.name (Stack.observe .createComplete) with
      | (.error e, m) => (.ended (some h) (.error e), m)
      | (.ok _, m) => m.sendFetch b h
    | .failed reason =>
      match m.update h.name (Stack.failed reason .createFailed) with
      | (.error e, m) => (.ended (some h) (.error e), m)
      | (.ok _, m) => (.ended (some h) (.error (.createFailed h.name reason)), m)
    | .unexpected status =>
      (.ended (some h) (.error (.backend ("unexpected status " ++ status.word ++
        " while creating stack '" ++ h.name ++ "'"))), m)
    | .pending =>
      if w.deadline ≤ m.now then (.ended (some h) (.error (.timeout h.name .create w.timeout)), m)
      else (.asleep h w m.clock (min m.timing.pollInterval (w.deadline - m.now)), m)
  | .asleep h w since duration, m =>
    match m.cancelAt.filter fun c => c ≤ since ∨ c < since + Timer.span duration with
    | some c => (.ended (some h) (.error (.interrupted h.name)), { m with clock := max m.clock c })
    | none => ({ m with clock := max m.clock (since + Timer.span duration) } : Manager σ).sendPoll b h w
  | .fetching h call, m =>
    let m := m.answered (.outputs h call.reply.result) call.time call.due
    match call.reply.result with
    | .error e => (.ended (some h) (.error e), m)
    | .ok values => (.fetched h values, m)
  | .fetched h values, m =>
    let (result, m) := m.updated name (Stack.withOutputs (flattenOutputs values))
    (.ended (some h) result, m)
  | .refused e, m => (.refused e, m)
  | .ended accepted result, m => (.ended accepted result, m)

/-- One of the two who create. -/
inductive Caller
  | first
  | second
  deriving DecidableEq

def Caller.other : Caller → Caller
  | first => second
  | second => first

/-- Two creations of one name on one manager. -/
structure Race (σ : Type) where
  manager : Manager σ
  stage : Caller → Stage := fun _ => .called

/-- Whose turn it is, some time after the turn before. -/
structure Turn where
  caller : Caller
  idle : Nat := 0

namespace Race
variable {σ : Type}

/-- The race after a step of the one whose turn it is. -/
def step (b : Backend σ) (name : String) (creation : Caller → Creation) (r : Race σ) (turn : Turn) :
    Race σ :=
  let m := { r.manager with clock := r.manager.clock + turn.idle }
  let (stage, m) := (creation turn.caller).step b name (r.stage turn.caller) m
  ⟨m, fun caller => if caller = turn.caller then stage else r.stage caller⟩

/-- The race after some turns. -/
def run (b : Backend σ) (name : String) (creation : Caller → Creation) (turns : List Turn) (r : Race σ) :
    Race σ :=
  turns.foldl (fun r turn => r.step b name creation turn) r

end Race
end Provision
