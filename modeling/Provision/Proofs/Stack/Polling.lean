import Mathlib.Algebra.Order.Floor.Div
import Provision.Proofs.Stack.Cancellation
import Provision.Proofs.Stack.CreationSteps

/-! When a creation polls, and what ends it. Its polls are at the multiples of the interval, and the last
one is at the deadline, unless an answer decides before. Neither the interval nor the limit needs to be a
multiple of the other. An interval lasts for as long as a timer runs that is set to it: whole milliseconds, and
no longer than thirty years. -/
namespace Provision

open Stack (lookup)

/-- A wait for a creation: the millisecond in which it starts, the interval at which it polls, and its limit. -/
structure Schedule where
  start : Nat
  interval : Nat
  timeout : Nat

namespace Schedule
variable {w : Schedule} {k : Nat}

/-- How many milliseconds a sleep lasts that ends before the deadline. -/
def span (w : Schedule) : Nat := Timer.span w.interval

/-- How many milliseconds the wait lasts at most. -/
def limit (w : Schedule) : Nat := Timer.ticks w.timeout

/-- The end of the wait in nanoseconds. -/
def deadline (w : Schedule) : Nat := Timer.tick * w.start + w.timeout

/-- The time of a poll: so many sleeps after the start, or the deadline. -/
def time (w : Schedule) (k : Nat) : Nat := w.start + min (k * w.span) w.limit

/-- The poll at the deadline. Those before it are numbered from zero. -/
def last (w : Schedule) : Nat := w.limit ⌈/⌉ w.span

theorem time_zero (w : Schedule) : w.time 0 = w.start := by
  rw [time, Nat.zero_mul, Nat.zero_min, Nat.add_zero]

theorem span_pos (hw : 0 < w.interval) : 0 < w.span := Timer.span_pos hw

theorem ticks_deadline (w : Schedule) : Timer.ticks w.deadline = w.start + w.limit := Timer.ticks_add ..

theorem lt_last_iff (hw : 0 < w.interval) : k < w.last ↔ k * w.span < w.limit := by
  rw [← Nat.not_le, ← Nat.not_le, last, ceilDiv_le_iff_le_mul (span_pos hw), Nat.mul_comm]

theorem last_le (hw : 0 < w.interval) : w.last ≤ w.limit / w.span + 1 := by
  rw [last, ceilDiv_le_iff_le_mul (span_pos hw)]
  exact (Nat.lt_mul_div_succ w.limit (span_pos hw)).le

theorem time_last (hw : 0 < w.interval) : w.time w.last = w.start + w.limit := by
  have hreached := (lt_last_iff hw (k := w.last)).not.mp (Nat.lt_irrefl _)
  rw [time, Nat.min_eq_right (Nat.le_of_not_lt hreached)]

theorem deadline_le (hw : 0 < w.interval) : w.deadline ≤ Timer.tick * w.time w.last := by
  rw [← Timer.ticks_le_iff, ticks_deadline, time_last hw]

/-- Before the last poll the deadline is still ahead. -/
theorem time_lt (hw : 0 < w.interval) (hk : k < w.last) : Timer.tick * w.time k < w.deadline := by
  have hearly := (lt_last_iff hw).mp hk
  rw [← Timer.lt_ticks_iff, ticks_deadline, time, Nat.min_eq_left hearly.le]
  exact Nat.add_lt_add_left hearly _

/-- A sleep from one poll to the next. It is set to an interval, or to what is left of the wait. -/
theorem time_succ (hw : 0 < w.interval) (hk : k < w.last) :
    w.time k + Timer.span (min w.interval (w.deadline - Timer.tick * w.time k)) = w.time (k + 1) := by
  have hearly := (lt_last_iff hw).mp hk
  rw [Timer.span_min_sub, ticks_deadline, ← span, time, time, Nat.succ_mul]
  generalize k * w.span = slept at hearly ⊢
  omega

end Schedule

/-- To tell a status takes the backend no time. -/
def Backend.TellsAtOnce {σ : Type} (b : Backend σ) : Prop :=
  ∀ now h s, (b.status now h s).1.took = 0

/-- An answer that lets a wait for a creation go on: the stack is being created, or the word is not one that
is understood. -/
def Undecided : Except StackError Report → Prop
  | .error _ => False
  | .ok report => Status.read report.status = .ok .creating ∨ ∃ e, Status.read report.status = .error e

/-- How a wait for the creation of a stack ends after its last answer, and in which status it leaves the
stack. -/
inductive Concluded (name : String) (timeout : Nat) :
    Except StackError Report → Except StackError Unit → Status → Prop
  | callFailed (e : StackError) : Concluded name timeout (.error e) (.error e) .creating
  | complete {report : Report} (read : Status.read report.status = .ok .createComplete) :
      Concluded name timeout (.ok report) (.ok ()) .createComplete
  | failed {report : Report} (read : Status.read report.status = .ok .createFailed) :
      Concluded name timeout (.ok report)
        (.error (.createFailed name (report.reason.getD report.status))) .createFailed
  | unexpected {report : Report} {status : Status} (read : Status.read report.status = .ok status)
      (other : status ∉ [.creating, .createComplete, .createFailed]) :
      Concluded name timeout (.ok report) (.error (.backend
        ("unexpected status " ++ status.word ++ " while creating stack '" ++ name ++ "'"))) .creating
  | timeout {answer : Except StackError Report} (undecided : Undecided answer) :
      Concluded name timeout answer (.error (.timeout name .create timeout)) .creating

variable {σ : Type} {b : Backend σ} {m m' m'' : Manager σ} {h : Handle} {name : String} {w : Schedule}

/-! The polls of a wait whose answers do not depend on when it falls asleep. -/

namespace Schedule

/-- The backend after so many polls. -/
def polled (w : Schedule) (b : Backend σ) (h : Handle) (s : σ) : Nat → σ
  | 0 => s
  | k + 1 => (b.status (w.time k) h (w.polled b h s k)).2

/-- The answer to a poll. -/
def answer (w : Schedule) (b : Backend σ) (h : Handle) (s : σ) (k : Nat) : Except StackError Report :=
  (b.status (w.time k) h (w.polled b h s k)).1.result

/-- What so many polls leave in a log, the newest first. -/
def polls (w : Schedule) (b : Backend σ) (h : Handle) (s : σ) (n : Nat) : List LogEntry :=
  ((List.range n).map fun k => ⟨w.time k, .status h (some .create) (w.answer b h s k)⟩).reverse

theorem polls_succ (w : Schedule) (b : Backend σ) (h : Handle) (s : σ) (n : Nat) :
    w.polls b h s (n + 1) =
      ⟨w.time n, .status h (some .create) (w.answer b h s n)⟩ :: w.polls b h s n := by
  simp [polls, List.range_succ]

end Schedule

namespace Manager

/-- A creation that waits since it was the first manager, and has polled so many times, the last time at that
time. Its stack is in the status. -/
structure Polling (b : Backend σ) (w : Schedule) (h : Handle) (status : Status) (asked time : Nat)
    (start m : Manager σ) : Prop where
  backend : m.backend = w.polled b h start.backend asked
  log : m.log = w.polls b h start.backend asked ++ start.log
  clock : m.clock = time
  interval : m.timing.pollInterval = w.interval
  held : h.HeldIn m.records status

namespace Polling
variable {start : Manager σ} {status target : Status} {k n time : Nat}

theorem ask (hb : b.TellsAtOnce) (hm : Polling b w h status k (w.time k) start m) :
    ∃ m', m.askStatus b h (some .create) = (w.answer b h start.backend k, m') ∧
      Polling b w h status (k + 1) (w.time k) start m' := by
  have htook := hb m.clock h m.backend
  have hanswer : w.answer b h start.backend k = (b.status m.clock h m.backend).1.result := by
    rw [hm.clock, hm.backend, Schedule.answer]
  have hnext : w.polled b h start.backend (k + 1) = (b.status m.clock h m.backend).2 := by
    rw [hm.clock, hm.backend, Schedule.polled]
  have hlog := w.polls_succ b h start.backend k
  rw [hanswer, ← hm.clock] at hlog
  rw [askStatus, hanswer]
  rcases hreply : b.status m.clock h m.backend with ⟨⟨result, took⟩, s⟩
  rw [hreply] at htook hnext hlog
  obtain rfl : took = 0 := htook
  refine ⟨_, rfl, hnext.symm, ?_, hm.clock, hm.interval, hm.held⟩
  rw [hlog, List.cons_append, ← hm.log]
  rfl

theorem sleep (hw : 0 < w.interval) (hk : k < w.last) (hm : Polling b w h status n (w.time k) start m) :
    Polling b w h status n (w.time (k + 1)) start
      (m.sleep (min m.timing.pollInterval (w.deadline - m.now))) := by
  refine ⟨hm.backend, hm.log, ?_, hm.interval, hm.held⟩
  change m.clock + Timer.span _ = _
  rw [hm.interval, now, hm.clock, Schedule.time_succ hw hk]

theorem update {f : Stack.Update} (hf : Stack.Moves f status target) (hname : ∀ s, (f s).2.name = s.name)
    (hm : Polling b w h status n time start m) :
    ∃ m', m.update h.name f = (.ok (), m') ∧ Polling b w h target n time start m' := by
  obtain ⟨hu, hheld⟩ := update_moves hf hname hm.held
  exact ⟨_, hu, hm.backend, hm.log, hm.clock, hm.interval, hheld⟩

end Polling

/-- A pause that is cut short ends when creation is cancelled. -/
theorem pause_false {duration : Nat} (hp : m.pause duration = (false, m')) :
    m'.cancelledBy m'.clock = true := by
  rw [pause_eq] at hp
  split at hp
  · next c hc =>
    cases hp
    rw [cancelledBy, (Option.filter_eq_some_iff.mp hc).1]
    exact decide_eq_true (Nat.le_max_right ..)
  · cases hp

/-! The wait. -/

end Manager

/-- What a wait makes of a report is what its word says. -/
theorem Report.createVerdict_spec (r : Report) : match r.createVerdict with
    | .complete => Status.read r.status = .ok .createComplete
    | .failed reason => Status.read r.status = .ok .createFailed ∧ reason = r.reason.getD r.status
    | .unexpected status => Status.read r.status = .ok status ∧
        status ∉ [.creating, .createComplete, .createFailed]
    | .pending => Undecided (.ok r) := by
  unfold createVerdict
  cases hread : Status.read r.status with
  | error e => exact Or.inr ⟨e, hread⟩
  | ok status =>
    cases status with
    | creating => exact Or.inl hread
    | _ => simp

theorem Undecided.createVerdict {r : Report} (hr : Undecided (.ok r)) : r.createVerdict = .pending := by
  unfold Report.createVerdict
  rcases hr with hr | ⟨e, hr⟩ <;> rw [hr]

namespace Manager

/-- One poll of a wait. If its answer decides, the wait is over, and else it is over at the deadline or goes
to sleep. -/
theorem Polling.poll {start : Manager σ} {k polls : Nat} (hb : b.TellsAtOnce)
    (hm : Polling b w h .creating k (w.time k) start m) {result : Except StackError Unit}
    (hawait : awaitCreation b h w.timeout w.deadline (polls + 1) m = (result, m')) :
    (¬ Undecided (w.answer b h start.backend k) ∧
      ∃ status, Concluded h.name w.timeout (w.answer b h start.backend k) result status ∧
        Polling b w h status (k + 1) (w.time k) start m') ∨
    Undecided (w.answer b h start.backend k) ∧
      ∃ m₁, Polling b w h .creating (k + 1) (w.time k) start m₁ ∧ (result, m') =
        if w.deadline ≤ m₁.now then (.error (.timeout h.name .create w.timeout), m₁)
        else
          match m₁.pause (min m₁.timing.pollInterval (w.deadline - m₁.now)) with
          | (false, m₂) => (.error (.interrupted h.name), m₂)
          | (true, m₂) => awaitCreation b h w.timeout w.deadline polls m₂ := by
  obtain ⟨m₁, hask, hm₁⟩ := hm.ask hb
  rw [awaitCreation, hask] at hawait
  generalize w.answer b h start.backend k = answer at *
  cases answer with
  | error e =>
    cases hawait
    exact Or.inl ⟨id, _, .callFailed e, hm₁⟩
  | ok report =>
    have hspec := report.createVerdict_spec
    have hdecided : Undecided (.ok report) → report.createVerdict = .pending := Undecided.createVerdict
    dsimp only at hawait
    cases hv : report.createVerdict with
    | complete =>
      rw [hv] at hspec hdecided hawait
      obtain ⟨m₂, hu, hm₂⟩ := hm₁.update Stack.moves_created (Stack.name_observe _)
      cases hu.symm.trans hawait
      exact Or.inl ⟨fun hu => (by cases hdecided hu), _, .complete hspec, hm₂⟩
    | failed reason =>
      rw [hv] at hspec hdecided hawait
      obtain ⟨hread, rfl⟩ := hspec
      obtain ⟨m₂, hu, hm₂⟩ := hm₁.update (Stack.moves_createFailed _) fun s =>
        Stack.name_observe _ { s with reason := _ }
      dsimp only at hawait
      rw [hu] at hawait
      cases hawait
      exact Or.inl ⟨fun hu => (by cases hdecided hu), _, .failed hread, hm₂⟩
    | unexpected status =>
      rw [hv] at hspec hdecided hawait
      cases hawait
      exact Or.inl ⟨fun hu => (by cases hdecided hu), _, .unexpected hspec.1 hspec.2, hm₁⟩
    | pending =>
      rw [hv] at hspec hawait
      exact Or.inr ⟨hspec, m₁, hm₁, hawait.symm⟩

/-- A wait that has come to its end with the poll of that number: no earlier answer decides, and this one
decides or is the last. -/
structure Awaited (b : Backend σ) (w : Schedule) (h : Handle) (start : Manager σ) (n : Nat)
    (result : Except StackError Unit) (m : Manager σ) : Prop where
  number : n ≤ w.last
  earlier : ∀ k < n, Undecided (w.answer b h start.backend k)
  last : Undecided (w.answer b h start.backend n) → n = w.last
  ended : ∃ status, Concluded h.name w.timeout (w.answer b h start.backend n) result status ∧
    Polling b w h status (n + 1) (w.time n) start m

/-- The wait from one poll on. It has polls enough for all that are left of the schedule. -/
theorem Polling.await {start : Manager σ} {k polls : Nat} (hb : b.TellsAtOnce) (hw : 0 < w.interval)
    (hm : Polling b w h .creating k (w.time k) start m) (hk : k ≤ w.last)
    (hearlier : ∀ j < k, Undecided (w.answer b h start.backend j)) (hpolls : w.last - k < polls)
    {result : Except StackError Unit}
    (hawait : awaitCreation b h w.timeout w.deadline polls m = (result, m')) :
    (result = .error (.interrupted h.name) ∧ m'.cancelledBy m'.clock = true) ∨
      ∃ n, Awaited b w h start n result m' := by
  induction polls generalizing m k with
  | zero => omega
  | succ polls ih =>
    rcases hm.poll hb hawait with ⟨hdecided, hended⟩ | ⟨hundecided, m₁, hm₁, hnext⟩
    · exact Or.inr ⟨k, hk, hearlier, fun hu => absurd hu hdecided, hended⟩
    have hnow : m₁.now = Timer.tick * w.time k := by rw [now, hm₁.clock]
    rcases hk.lt_or_eq with hlt | rfl
    · rw [if_neg (hnow ▸ Nat.not_le.mpr (w.time_lt hw hlt))] at hnext
      rcases hpause : m₁.pause (min m₁.timing.pollInterval (w.deadline - m₁.now))
        with ⟨_ | _, m₂⟩ <;> rw [hpause] at hnext
      · cases hnext
        exact Or.inl ⟨rfl, pause_false hpause⟩
      · obtain rfl := pause_true hpause
        refine ih (hm₁.sleep hw hlt) hlt (fun j hj => ?_) (by omega) hnext.symm
        rcases Nat.lt_succ_iff_lt_or_eq.mp hj with hj | rfl
        · exact hearlier j hj
        · exact hundecided
    · rw [if_pos (hnow ▸ w.deadline_le hw)] at hnext
      cases hnext
      exact Or.inr ⟨w.last, hk, hearlier, fun _ => rfl, _, .timeout hundecided, hm₁⟩

/-! From the submission on. -/

variable {g : Graph} {p : SortedMap String} {id : String} {timeout : Nat} {m₁ m₂ : Manager σ}

theorem timing_submitted {answer : Option (Except StackError Handle)}
    (registered : m.register name = .ok m₁) (submitted : m₁.askSubmit b name g p = (answer, m₂)) :
    m₂.timing = m.timing := by
  have htiming := (m₁.askSubmit_same b name g p).timing
  rw [submitted] at htiming
  obtain ⟨-, -, -, he⟩ | ⟨-, hr⟩ := m.register_cases name
  · cases registered.symm.trans he
  · cases registered.symm.trans hr
    exact htiming

/-- Once the id is recorded, a creation waits. -/
theorem finishCreation_blocking (hu : m.update name (Stack.submitted h.id) = (.ok (), m')) :
    m.finishCreation b name h (.blocking timeout) =
      outputsAfter b name h (m'.waitForCreation b h timeout) := by
  rw [finishCreation, hu]
  dsimp only
  rcases m'.waitForCreation b h timeout with ⟨_ | _, _⟩ <;> rfl

/-- A stack that was submitted is recorded under its id before the wait starts. -/
theorem create_submitted (timeout : Nat) (registered : m.register name = .ok m₁)
    (submitted : m₁.askSubmit b name g p = (some (.ok ⟨id, name⟩), m₂)) :
    ∃ records, m₂.update name (Stack.submitted id) = (.ok (), { m₂ with records }) ∧
      (⟨id, name⟩ : Handle).HeldIn records .creating ∧
      m.create b name g p (.blocking timeout) = outputsAfter b name ⟨id, name⟩
        (waitForCreation b ⟨id, name⟩ timeout { m₂ with records }) := by
  have hrecords := (m₁.askSubmit_same b name g p).records
  rw [submitted] at hrecords
  obtain ⟨-, -, -, he⟩ | ⟨-, hr⟩ := m.register_cases name
  · cases registered.symm.trans he
  cases registered.symm.trans hr
  have hfound : lookup name m₂.records = some { name } := by
    rw [hrecords]
    exact Stack.lookup_renew name m.records
  obtain ⟨hok, hid, hstatus⟩ := Stack.submitted_ok id (s := { name }) rfl
  have hupdate := update_eq (f := Stack.submitted id) hfound
  rw [hok] at hupdate
  have hname : ∀ s, s.name = name → (Stack.submitted id s).2.name = name := fun s hs =>
    (Stack.name_apply .submit { s with id := some id }).trans hs
  refine ⟨_, hupdate, ⟨(Stack.submitted id { name }).2, ?_, hid, hstatus⟩, ?_⟩
  · exact (Stack.lookup_change hname m₂.records).trans (by rw [hfound, Option.map_some])
  · rw [create, registered]
    dsimp only
    rw [submitted]
    exact finishCreation_blocking hupdate

/-- What follows a wait leaves the stack in its status. -/
theorem outputsAfter_heldIn {status : Status} {result : Except StackError Unit}
    (hh : h.HeldIn m.records status) :
    h.HeldIn (outputsAfter b h.name h (result, m)).2.records status := by
  cases result with
  | error e => exact hh
  | ok =>
    obtain ⟨answer, s, took, hask, -⟩ := m.askOutputs_eq b h
    rw [outputsAfter, hask]
    cases answer with
    | error e => exact hh
    | ok values =>
      have hcalled : h.HeldIn (m.called s (.outputs h (.ok values)) took).records status := hh
      obtain ⟨hu, hheld⟩ := update_moves (Stack.moves_withOutputs _ _) (fun _ => rfl) hcalled
      dsimp only
      rw [updated_snd, hu]
      exact hheld

/-- A creation that waits and is not cancelled polls at the start of its wait, then at every multiple of the
interval, and at the deadline, until an answer decides. Only the last poll need not, and then the creation has
waited for as long as it was told, to the end of the millisecond. How it ends is told by the last answer, and
its stack keeps the id. An interval lasts as long as a timer that is set to it. The handle is one of the name
that was submitted, and the clock can tell the deadline. -/
theorem create_polls (hb : b.TellsAtOnce) (hinterval : 0 < m.timing.pollInterval)
    (registered : m.register name = .ok m₁)
    (submitted : m₁.askSubmit b name g p = (some (.ok ⟨id, name⟩), m₂))
    (told : m₂.now + timeout < m.timing.horizon)
    (uncancelled : (m.create b name g p (.blocking timeout)).2.cancelledBy
      (m.create b name g p (.blocking timeout)).2.clock = false)
    (hw : w = ⟨m₂.clock, m.timing.pollInterval, timeout⟩) :
    ∃ n ≤ w.last, ∃ waited m₃ status,
      (∀ k < n, Undecided (w.answer b ⟨id, name⟩ m₂.backend k)) ∧
      (Undecided (w.answer b ⟨id, name⟩ m₂.backend n) →
        n = w.last ∧ m₃.clock = m₂.clock + Timer.ticks timeout) ∧
      Concluded name timeout (w.answer b ⟨id, name⟩ m₂.backend n) waited status ∧
      m₃.log = w.polls b ⟨id, name⟩ m₂.backend (n + 1) ++ m₂.log ∧ m₃.clock = w.time n ∧
      m.create b name g p (.blocking timeout) = outputsAfter b name ⟨id, name⟩ (waited, m₃) ∧
      ∃ s, (m.create b name g p (.blocking timeout)).2.find? name = some s ∧
        s.id = some id ∧ s.status = status := by
  obtain ⟨records, -, hheld, hcreate⟩ := create_submitted timeout registered submitted
  have htiming := timing_submitted registered submitted
  have hinterval₂ := congrArg Timing.pollInterval htiming
  rcases hwait : waitForCreation b ⟨id, name⟩ timeout { m₂ with records } with ⟨waited, m₃⟩
  rw [hcreate, hwait] at uncancelled ⊢
  subst hw
  have hlast := Schedule.last_le (w := ⟨m₂.clock, m.timing.pollInterval, timeout⟩) hinterval
  have hdeadline : ({ m₂ with records } : Manager σ).deadline? timeout =
      some (Schedule.deadline ⟨m₂.clock, m.timing.pollInterval, timeout⟩) := if_pos (htiming ▸ told)
  rw [waitForCreation, hdeadline] at hwait
  dsimp only at hwait
  rw [pollLimit, hinterval₂, if_neg (Nat.ne_of_gt hinterval)] at hwait
  have hstart : Polling b ⟨m₂.clock, m.timing.pollInterval, timeout⟩ ⟨id, name⟩ .creating 0
      (Schedule.time ⟨m₂.clock, m.timing.pollInterval, timeout⟩ 0) m₂ { m₂ with records } :=
    ⟨rfl, rfl, (Schedule.time_zero ⟨m₂.clock, m.timing.pollInterval, timeout⟩).symm, hinterval₂, hheld⟩
  rcases hstart.await hb hinterval (Nat.zero_le _)
    (fun j hj => absurd hj (Nat.not_lt_zero j)) (Nat.lt_of_le_of_lt hlast (Nat.lt_succ_self _))
    hwait with ⟨rfl, hc⟩ | ⟨n, hn, hearlier, hundecided, status, hconcluded, hm₃⟩
  · -- An interrupted wait is all that is left of the creation.
    exact absurd hc (Bool.eq_false_iff.mp uncancelled)
  · refine ⟨n, hn, waited, m₃, status, hearlier, fun hu => ?_, hconcluded, hm₃.log, hm₃.clock, rfl,
      outputsAfter_heldIn hm₃.held⟩
    obtain rfl := hundecided hu
    exact ⟨rfl, hm₃.clock.trans (Schedule.time_last hinterval)⟩

end Manager

theorem Script.tellsAtOnce : Script.backend.TellsAtOnce := fun _ _ _ => rfl

/-- A wait of two and a half intervals, each of half a millisecond more than a second. -/
def halfway : Schedule := ⟨0, 1000 * Timer.tick + Timer.tick / 2, 2500 * Timer.tick⟩

theorem Manager.create_polls_sample : ∃ n ≤ halfway.last, ∃ waited status, ∃ m₃ : Manager Script,
    halfway.last = 3 ∧
    (Undecided (halfway.answer Script.backend ⟨"id-1", "demo"⟩ slowScript n) →
      n = halfway.last ∧ m₃.clock = 0 + Timer.ticks halfway.timeout) ∧
    Concluded "demo" halfway.timeout
      (halfway.answer Script.backend ⟨"id-1", "demo"⟩ slowScript n) waited status ∧
    m₃.clock = halfway.time n ∧
    create Script.backend "demo" {} ∅ (.blocking halfway.timeout)
        { timing := { pollInterval := halfway.interval }, backend := slowScript } =
      outputsAfter Script.backend "demo" ⟨"id-1", "demo"⟩ (waited, m₃) := by
  have registered : register "demo"
      ({ timing := { pollInterval := halfway.interval }, backend := slowScript } : Manager Script) =
        .ok _ := rfl
  have uncancelled : (create Script.backend "demo" {} ∅ (.blocking halfway.timeout)
      { timing := { pollInterval := halfway.interval }, backend := slowScript }).2.cancelledBy 2500 =
        false := rfl
  obtain ⟨n, hn, waited, m₃, status, -, hundecided, hconcluded, -, hclock, hcreate, -⟩ :=
    create_polls (w := halfway) Script.tellsAtOnce (by decide) registered rfl (by decide) uncancelled rfl
  exact ⟨n, hn, waited, status, m₃, by decide, hundecided, hconcluded, hclock, hcreate⟩

/-- When a wait for a creation has asked for the status, the latest time first. -/
def Manager.pollTimes {σ : Type} (m : Manager σ) : List Nat :=
  m.log.filterMap fun entry => match entry.event with
    | .status _ (some .create) _ => some entry.time
    | _ => none

/-- The multiples of an interval up to a limit, and the limit, the greatest first, in nanoseconds. -/
def multiples (interval timeout : Nat) : List Nat :=
  ((List.range (timeout ⌈/⌉ interval + 1)).map fun k => min (k * interval) timeout).reverse

/-- The backend of a script, but that answers a submission with a handle of another name. -/
def Script.misnaming (other : String) : Backend Script :=
  { Script.backend with
    submit := fun now name graph parameters s =>
      let (reply, s) := Script.backend.submit now name graph parameters s
      ({ reply with result := reply.result.map fun h => { h with name := other } }, s) }

/-- A stack that is complete when it is asked about. -/
def promptScript : Script where
  submits := [(.ok "id-1", 0)]
  statuses := [.ok { status := "CREATE_COMPLETE" }]
  outputs := [.ok []]
  deletes := [.ok true]

/-- A stack that is still being created after a creation that waits. -/
def waitedFor (interval timeout : Nat) : Except StackError Stack × Manager Script :=
  Manager.create Script.backend "demo" {} ∅ (.blocking timeout)
    { timing := { pollInterval := interval }, backend := slowScript }

/-- An interval that is longer than a timer runs, or that is not one of whole milliseconds, is not kept to. A
wait whose end the clock cannot tell does not start. And a stack whose handle bears another name is complete
without its record being told. -/
theorem Manager.polls_between_intervals :
    (waitedFor (1000000000 * Timer.second) (2000000000 * Timer.second)).2.pollTimes =
      [2000000000000, 1892160000000, 946080000000, 0] ∧
    (waitedFor (1000000000 * Timer.second) (2000000000 * Timer.second)).2.pollTimes.map (Timer.tick * ·) ≠
      multiples (1000000000 * Timer.second) (2000000000 * Timer.second) ∧
    (waitedFor (3 * Timer.tick / 2) (3 * Timer.tick)).2.pollTimes = [3, 2, 0] ∧
    (waitedFor (3 * Timer.tick / 2) (3 * Timer.tick)).2.pollTimes.map (Timer.tick * ·) ≠
      multiples (3 * Timer.tick / 2) (3 * Timer.tick) ∧
    (waitedFor Timer.second Timer.horizon).1 = .error .overflow ∧
    (waitedFor Timer.second Timer.horizon).2.pollTimes = [] ∧
    (create (Script.misnaming "other") "demo" {} ∅ (.blocking Timer.second)
      { timing := {}, backend := promptScript }).1 = .error (.backend "stack 'other' is not tracked") ∧
    ((create (Script.misnaming "other") "demo" {} ∅ (.blocking Timer.second)
      { timing := {}, backend := promptScript }).2.find? "demo").map Stack.status = some .creating := by
  refine ⟨rfl, ?_, rfl, ?_, rfl, rfl, rfl, rfl⟩ <;> decide

end Provision
