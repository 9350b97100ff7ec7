import Provision.Proofs.Stack.Orderly

/-! An attempt to delete a stack: a request, and perhaps a wait for its end. How the attempt ends is told by
the answers to the request and to the polls of the wait, whatever the status the stack is in before. A wait
that the clock cannot tell the end of is not begun. -/
namespace Provision

namespace Deletion

/-- A poll of a wait for a deletion: when it is made, the answer, and when that is there, in milliseconds. -/
structure Poll where
  asked : Nat
  answer : Except StackError Report
  answered : Nat

/-- The poll reports the status. -/
def Poll.Reports (p : Poll) (status : Status) : Prop :=
  ∃ r, p.answer = .ok r ∧ Status.read r.status = .ok status

/-- The answer is one that lets the wait go on. -/
def Poll.Pending (p : Poll) : Prop :=
  (∃ r, p.answer = .ok r) ∧ ¬ p.Reports .deleteComplete ∧ ¬ p.Reports .deleteFailed

/-- An attempt: its request, and the polls of the wait if there is one. -/
structure Attempt where
  asked : Nat
  answer : Except StackError Bool
  answered : Nat
  polls : List Poll

/-- What the poll leaves in a log. -/
def Poll.entry (h : Handle) (p : Poll) : LogEntry := ⟨p.asked, .status h (some .delete) p.answer⟩

namespace Attempt

/-- An attempt is over when its last call is answered. -/
def ended (a : Attempt) : Nat := (a.polls.getLast?.map Poll.answered).getD a.answered

/-- What the attempt leaves in a log, the newest first: one request, and the polls. -/
def entries (h : Handle) (a : Attempt) : List LogEntry :=
  (a.polls.map (Poll.entry h)).reverse ++ [⟨a.asked, .delete h a.answer⟩]

/-- Why an attempt fails: the request ends in an error or is refused, or the attempt waits and a poll ends in
an error, or a poll reports the failure, or the limit is over and no poll reports the deletion. -/
inductive Fails (timeout : Nat) (block : Bool) (a : Attempt) : Prop
  | callFailed {e : StackError} (failed : a.answer = .error e)
  | refused (refused : a.answer = .ok false)
  | pollFailed {p : Poll} {e : StackError} (waited : block = true) (made : p ∈ a.polls)
      (failed : p.answer = .error e)
  | reported {p : Poll} (waited : block = true) (made : p ∈ a.polls) (reports : p.Reports .deleteFailed)
  | elapsed {p : Poll} (waited : block = true) (incomplete : ∀ p ∈ a.polls, ¬ p.Reports .deleteComplete)
      (made : p ∈ a.polls)
      (late : Timer.tick * a.answered + timeout ≤ Timer.tick * p.answered)

end Attempt

/-- The polls of a wait from a time on, and how the wait ends. Between two polls it sleeps for an interval, or
for what is left of the wait. -/
inductive Waits (name : String) (interval timeout deadline : Nat) :
    Nat → List Poll → Except StackError Unit → Prop
  | callFailed {p : Poll} {e : StackError} (failed : p.answer = .error e) :
      Waits name interval timeout deadline p.asked [p] (.error e)
  | complete {p : Poll} (reports : p.Reports .deleteComplete) :
      Waits name interval timeout deadline p.asked [p] (.ok ())
  | failed {p : Poll} {r : Report} (answer : p.answer = .ok r)
      (read : Status.read r.status = .ok .deleteFailed) :
      Waits name interval timeout deadline p.asked [p]
        (.error (.deleteFailed name (r.reason.getD r.status)))
  | elapsed {p : Poll} (pending : p.Pending) (late : deadline ≤ Timer.tick * p.answered) :
      Waits name interval timeout deadline p.asked [p] (.error (.timeout name .delete timeout))
  | next {p : Poll} {rest : List Poll} {result : Except StackError Unit} (pending : p.Pending)
      (early : Timer.tick * p.answered < deadline)
      (slept : Waits name interval timeout deadline
        (p.answered + Timer.span (min interval (deadline - Timer.tick * p.answered))) rest result) :
      Waits name interval timeout deadline p.asked (p :: rest) result

/-- How an attempt ends. It waits if it is told to and the request is accepted. Then it ends at once if the
clock cannot tell the end of the wait. -/
inductive Attempt.Ends (timing : Timing) (name : String) :
    Bool → Attempt → Except StackError Unit → Prop
  | callFailed {block : Bool} {asked answered : Nat} (e : StackError) :
      Ends timing name block ⟨asked, .error e, answered, []⟩ (.error e)
  | refused {block : Bool} {asked answered : Nat} :
      Ends timing name block ⟨asked, .ok false, answered, []⟩ (.error (.deleteFailed name refusedReason))
  | accepted {asked answered : Nat} : Ends timing name false ⟨asked, .ok true, answered, []⟩ (.ok ())
  | overflowed {asked answered : Nat}
      (untold : timing.horizon ≤ Timer.tick * answered + timing.deleteTimeout) :
      Ends timing name true ⟨asked, .ok true, answered, []⟩ (.error .overflow)
  | waited {asked answered : Nat} {polls : List Poll} {result : Except StackError Unit}
      (told : Timer.tick * answered + timing.deleteTimeout < timing.horizon)
      (waits : Waits name timing.pollInterval timing.deleteTimeout
        (Timer.tick * answered + timing.deleteTimeout) answered polls result) :
      Ends timing name true ⟨asked, .ok true, answered, polls⟩ result

/-! Why attempts fail. -/

variable {name : String} {interval timeout deadline time : Nat} {polls : List Poll} {e : StackError}
  {timing : Timing} {block : Bool} {a : Attempt} {result : Except StackError Unit}

theorem Poll.Pending.answer_ne {p : Poll} (hp : p.Pending) (e : StackError) : p.answer ≠ .error e := by
  obtain ⟨⟨r, hr⟩, -⟩ := hp
  rw [hr]
  exact Checks.of_ok

/-- A poll reports one status. -/
theorem Poll.Reports.unique {p : Poll} {s t : Status} (hs : p.Reports s) (ht : p.Reports t) : s = t := by
  obtain ⟨r, hr, hs⟩ := hs
  obtain ⟨r', hr', ht⟩ := ht
  cases hr.symm.trans hr'
  exact Except.ok.inj (hs.symm.trans ht)

/-- No poll of a wait that succeeds was answered with an error or the failure. -/
theorem Waits.succeeded (hw : Waits name interval timeout deadline time polls (.ok ())) :
    (∃ p ∈ polls, p.Reports .deleteComplete) ∧
      ∀ p ∈ polls, (∀ e, p.answer ≠ .error e) ∧ ¬ p.Reports .deleteFailed := by
  generalize hr : (.ok () : Except StackError Unit) = result at hw
  induction hw with
  | callFailed | failed | elapsed => cases hr
  | @complete p reports =>
    refine ⟨⟨p, List.mem_singleton_self p, reports⟩, fun q hq => ?_⟩
    obtain rfl := List.mem_singleton.mp hq
    refine ⟨fun e he => ?_, fun hf => by cases reports.unique hf⟩
    obtain ⟨r, hr, -⟩ := reports
    cases hr.symm.trans he
  | @next p rest _ pending _ _ ih =>
    obtain ⟨⟨q, hq, hreports⟩, hothers⟩ := ih hr
    exact ⟨⟨q, List.mem_cons_of_mem p hq, hreports⟩,
      List.forall_mem_cons.mpr ⟨⟨pending.answer_ne, pending.2.2⟩, hothers⟩⟩

/-- The last poll of a wait that fails ends in an error or reports the failure, or it is the poll that is
answered after the deadline. -/
theorem Waits.failure (hw : Waits name interval timeout deadline time polls (.error e)) :
    (∃ p ∈ polls, ∃ e, p.answer = .error e) ∨ (∃ p ∈ polls, p.Reports .deleteFailed) ∨
      (∀ p ∈ polls, ¬ p.Reports .deleteComplete) ∧ ∃ p ∈ polls, deadline ≤ Timer.tick * p.answered := by
  generalize hr : (.error e : Except StackError Unit) = result at hw
  induction hw with
  | complete => cases hr
  | @callFailed p e failed => exact Or.inl ⟨p, List.mem_singleton_self p, e, failed⟩
  | @failed p r answer read => exact Or.inr (Or.inl ⟨p, List.mem_singleton_self p, r, answer, read⟩)
  | @elapsed p pending late =>
    refine Or.inr (Or.inr ⟨fun q hq => ?_, p, List.mem_singleton_self p, late⟩)
    rw [List.mem_singleton.mp hq]
    exact pending.2.1
  | @next p rest _ pending _ _ ih =>
    rcases ih hr with ⟨q, hq, he⟩ | ⟨q, hq, hf⟩ | ⟨hothers, q, hq, late⟩
    · exact Or.inl ⟨q, List.mem_cons_of_mem p hq, he⟩
    · exact Or.inr (Or.inl ⟨q, List.mem_cons_of_mem p hq, hf⟩)
    · exact Or.inr (Or.inr ⟨List.forall_mem_cons.mpr ⟨pending.2.1, hothers⟩, q,
        List.mem_cons_of_mem p hq, late⟩)

/-- An attempt that succeeds has no reason to fail. -/
theorem Attempt.Ends.not_fails (ha : a.Ends timing name block (.ok ())) :
    ¬ a.Fails timing.deleteTimeout block := by
  intro hf
  cases ha with
  | accepted =>
    cases hf with
    | callFailed failed => cases failed
    | refused refused => cases refused
    | pollFailed waited | reported waited | elapsed waited => cases waited
  | waited told waits =>
    obtain ⟨⟨q, hq, hcomplete⟩, hpolls⟩ := waits.succeeded
    cases hf with
    | callFailed failed => cases failed
    | refused refused => cases refused
    | pollFailed _ made failed => exact (hpolls _ made).1 _ failed
    | reported _ made reports => exact (hpolls _ made).2 reports
    | elapsed _ incomplete _ _ => exact incomplete q hq hcomplete

theorem Attempt.Ends.fails (ha : a.Ends timing name block (.error e)) (he : e ≠ .overflow) :
    a.Fails timing.deleteTimeout block := by
  cases ha with
  | callFailed => exact .callFailed rfl
  | refused => exact .refused rfl
  | overflowed => exact absurd rfl he
  | waited told waits =>
    rcases waits.failure with ⟨p, hp, e, he⟩ | ⟨p, hp, hf⟩ | ⟨hothers, p, hp, late⟩
    · exact .pollFailed rfl hp he
    · exact .reported rfl hp hf
    · exact .elapsed rfl hothers hp late

/-- How an attempt ends is told by its answers, unless the clock overflows. -/
theorem Attempt.Ends.ok_iff (ha : a.Ends timing name block result) (hr : Returned result) :
    result = .ok () ↔ ¬ a.Fails timing.deleteTimeout block := by
  rcases result with e | _
  · exact ⟨Checks.of_error, fun hf => absurd (ha.fails fun he => hr (congrArg _ he)) hf⟩
  · exact ⟨fun _ => ha.not_fails, fun _ => rfl⟩

end Deletion

/-- What a wait for a deletion makes of a report is what its word says. -/
theorem Report.deleteVerdict_spec (r : Report) : match r.deleteVerdict with
    | .complete => Status.read r.status = .ok .deleteComplete
    | .failed reason => Status.read r.status = .ok .deleteFailed ∧ reason = r.reason.getD r.status
    | .pending => Status.read r.status ≠ .ok .deleteComplete ∧ Status.read r.status ≠ .ok .deleteFailed := by
  unfold deleteVerdict
  cases hread : Status.read r.status with
  | error e => simp
  | ok status => cases status <;> simp

namespace Deletion
variable {σ : Type} {b : Backend σ} {m m' : Manager σ} {h : Handle} {timeout deadline : Nat}
  {block : Bool} {result : Except StackError Unit}

/-- The second manager is the first after a wait for a deletion, with these polls and this end. -/
structure Waited (h : Handle) (timeout deadline : Nat) (m : Manager σ) (polls : List Poll)
    (result : Except StackError Unit) (m' : Manager σ) : Prop where
  waits : Waits h.name m.timing.pollInterval timeout deadline m.clock polls result
  log : m'.log = (polls.map (Poll.entry h)).reverse ++ m.log
  clock : polls.getLast?.map Poll.answered = some m'.clock
  timing : m'.timing = m.timing
  failed : ∀ e, result = .error e → e.isRetryable = true ∧ h.LiveIn m'.records
  succeeded : result = .ok () → h.HeldIn m'.records .deleteComplete

/-- A wait that fails with its first poll. -/
theorem Waited.of_failure {answer : Except StackError Report} {took : Nat} {e : StackError}
    {records : List Stack} (s : σ)
    (hw : Waits h.name m.timing.pollInterval timeout deadline m.clock [⟨m.clock, answer, m.clock + took⟩]
      (.error e)) (he : e.isRetryable = true) (hl : h.LiveIn records) :
    Waited h timeout deadline m [⟨m.clock, answer, m.clock + took⟩] (.error e)
      { m.called s (.status h (some .delete) answer) took with records } := by
  refine ⟨hw, rfl, rfl, rfl, ?_, Checks.of_error⟩
  rintro e ⟨⟩
  exact ⟨he, hl⟩

/-- A wait that goes on after its first poll. -/
theorem Waited.cons {report : Report} {s : σ} {took : Nat} {polls : List Poll}
    (pending : (⟨m.clock, .ok report, m.clock + took⟩ : Poll).Pending)
    (early : Timer.tick * (m.clock + took) < deadline)
    (rest : Waited h timeout deadline
      ((m.called s (.status h (some .delete) (.ok report)) took).sleep
        (min m.timing.pollInterval (deadline - Timer.tick * (m.clock + took)))) polls result m') :
    Waited h timeout deadline m (⟨m.clock, .ok report, m.clock + took⟩ :: polls) result m' := by
  refine ⟨.next pending early rest.waits, ?_, ?_, rest.timing, rest.failed, rest.succeeded⟩
  · rw [rest.log, List.map_cons, List.reverse_cons, List.append_assoc]
    rfl
  · obtain ⟨p, hp, hclock⟩ := Option.map_eq_some_iff.mp rest.clock
    rw [List.getLast?_cons, hp, Option.map_some]
    exact congrArg some hclock

/-- One poll of a wait. Either the wait is over with it, or it is pending, the deadline is ahead, and the wait
goes on after a sleep. -/
theorem awaitDeletion_poll (hp : b.FailsPlainly) {limit : Nat} (hh : h.HeldIn m.records .deleting)
    (hw : Manager.awaitDeletion b h timeout deadline (limit + 1) m = (result, m')) :
    (∃ p, Waited h timeout deadline m [p] result m') ∨
    ∃ report s took, (⟨m.clock, .ok report, m.clock + took⟩ : Poll).Pending ∧
      Timer.tick * (m.clock + took) < deadline ∧ Manager.awaitDeletion b h timeout deadline limit
        ((m.called s (.status h (some .delete) (.ok report)) took).sleep
          (min m.timing.pollInterval (deadline - Timer.tick * (m.clock + took)))) = (result, m') := by
  obtain ⟨answer, s, took, hask, hfail⟩ := m.askStatus_eq b h (some .delete)
  have hcalled : h.HeldIn (m.called s (.status h (some .delete) answer) took).records .deleting := hh
  have hlive : h.LiveIn m.records := ⟨.deleting, by decide, hh⟩
  rw [Manager.awaitDeletion, hask] at hw
  rcases answer with e | r
  · cases hw
    obtain ⟨message, rfl⟩ := hp e (hfail e rfl)
    exact Or.inl ⟨_, .of_failure s (.callFailed (p := ⟨m.clock, _, m.clock + took⟩) rfl) rfl hlive⟩
  · have hspec := r.deleteVerdict_spec
    dsimp only at hw
    cases hv : r.deleteVerdict with
    | complete =>
      rw [hv] at hspec hw
      obtain ⟨hu, hheld⟩ := Manager.update_moves Stack.moves_deleted (Stack.name_observe _) hcalled
      cases hu.symm.trans hw
      exact Or.inl ⟨_, .complete (p := ⟨m.clock, _, m.clock + took⟩) ⟨r, rfl, hspec⟩, rfl, rfl, rfl,
        fun _ => Checks.of_ok, fun _ => hheld⟩
    | failed reason =>
      rw [hv] at hspec hw
      obtain ⟨hread, rfl⟩ := hspec
      obtain ⟨hu, hheld⟩ := Manager.update_moves (Stack.moves_deleteFailed _)
        (fun s => Stack.name_observe _ { s with reason := _ }) hcalled
      dsimp only at hw
      rw [hu] at hw
      cases hw
      exact Or.inl ⟨_, .of_failure s (.failed (p := ⟨m.clock, _, m.clock + took⟩) rfl hread) rfl
        ⟨.deleteFailed, by decide, hheld⟩⟩
    | pending =>
      rw [hv] at hspec hw
      have hpending : (⟨m.clock, .ok r, m.clock + took⟩ : Poll).Pending := by
        refine ⟨⟨r, rfl⟩, ?_, ?_⟩ <;> rintro ⟨r', hr', hread⟩ <;> cases hr'
        · exact hspec.1 hread
        · exact hspec.2 hread
      dsimp only at hw
      rcases ite_eq_iff.mp hw with ⟨hd, hw⟩ | ⟨hd, hw⟩
      · cases hw
        exact Or.inl ⟨_, .of_failure s (.elapsed hpending hd) rfl hlive⟩
      · exact Or.inr ⟨r, s, took, hpending, Nat.lt_of_not_le hd, hw⟩

/-- One poll more than there are sleeps left is enough for a wait. -/
theorem waited_awaitDeletion (hp : b.FailsPlainly) {limit : Nat} (hh : h.HeldIn m.records .deleting)
    (hleft : ∃ polls, limit = polls + 1 ∧
      Timer.ticks deadline ≤ m.clock + polls * Timer.span m.timing.pollInterval)
    (hw : Manager.awaitDeletion b h timeout deadline limit m = (result, m')) :
    ∃ made, Waited h timeout deadline m made result m' := by
  induction limit generalizing m with
  | zero =>
    obtain ⟨polls, hlimit, -⟩ := hleft
    cases hlimit
  | succ limit ih =>
    obtain ⟨polls, hlimit, hleft⟩ := hleft
    obtain rfl := Nat.succ.inj hlimit
    rcases awaitDeletion_poll hp hh hw with ⟨p, hlast⟩ | ⟨r, s, took, hpending, early, hrest⟩
    · exact ⟨[p], hlast⟩
    · have hslept : h.HeldIn ((m.called s (.status h (some .delete) (.ok r)) took).sleep
          (min m.timing.pollInterval (deadline - Timer.tick * (m.clock + took)))).records .deleting := hh
      obtain ⟨made, hmade⟩ := ih hslept
        (Manager.sleep_reaches (Nat.le_add_right m.clock took) early hleft) hrest
      exact ⟨_, hmade.cons hpending early⟩

/-- A wait whose end the clock can tell has polls enough to reach it. -/
theorem waited_waitForDeletion (hp : b.FailsPlainly) (hw : m.waitForDeletion b h = (result, m'))
    (hi : 0 < m.timing.pollInterval) (hh : h.HeldIn m.records .deleting) :
    (m.timing.horizon ≤ m.now + m.timing.deleteTimeout ∧ result = .error .overflow ∧ m' = m) ∨
    m.now + m.timing.deleteTimeout < m.timing.horizon ∧
      ∃ made, Waited h m.timing.deleteTimeout (m.now + m.timing.deleteTimeout) m made result m' := by
  rw [Manager.waitForDeletion] at hw
  by_cases htold : m.now + m.timing.deleteTimeout < m.timing.horizon
  · obtain ⟨polls, hlimit, hleft⟩ := Manager.pollLimit_reaches (Nat.ne_of_gt hi) m.timing.deleteTimeout
    rw [Manager.deadline?, if_pos htold] at hw
    refine Or.inr ⟨htold, waited_awaitDeletion hp hh ⟨polls, hlimit, ?_⟩ hw⟩
    rw [Manager.now, Timer.ticks_add]
    exact Nat.add_le_add_left hleft m.clock
  · rw [Manager.deadline?, if_neg htold] at hw
    cases hw
    exact Or.inl ⟨Nat.le_of_not_lt htold, rfl, rfl⟩

/-! The attempt. -/

/-- The second manager is the first after an attempt at a deletion, and this is how it ended. If it failed,
another one can follow, unless the clock cannot tell the end of a wait that would start now. -/
structure Tried (h : Handle) (block : Bool) (m : Manager σ) (a : Attempt)
    (result : Except StackError Unit) (m' : Manager σ) : Prop where
  asked : a.asked = m.clock
  ends : a.Ends m.timing h.name block result
  log : m'.log = a.entries h ++ m.log
  clock : m'.clock = a.ended
  timing : m'.timing = m.timing
  failed : ∀ e, result = .error e → h.LiveIn m'.records ∧
    (e.isRetryable = true ∨
      e = .overflow ∧ block = true ∧ m'.deadline? m'.timing.deleteTimeout = none)
  succeeded : result = .ok () → h.HeldIn m'.records (if block then .deleteComplete else .deleting)

/-- An attempt that fails with its request. -/
theorem Tried.of_failure {answer : Except StackError Bool} {took : Nat} {e : StackError}
    {records : List Stack} (s : σ)
    (ha : (⟨m.clock, answer, m.clock + took, []⟩ : Attempt).Ends m.timing h.name block (.error e))
    (he : e.isRetryable = true) (hl : h.LiveIn records) :
    Tried h block m ⟨m.clock, answer, m.clock + took, []⟩ (.error e)
      { m.called s (.delete h answer) took with records } := by
  refine ⟨rfl, ha, rfl, rfl, rfl, ?_, Checks.of_error⟩
  rintro e ⟨⟩
  exact ⟨hl, Or.inl he⟩

/-- An attempt whose request is accepted, and whose wait starts with the change of the record. -/
theorem Waited.tried (m : Manager σ) (s : σ) (took : Nat) {records : List Stack} {polls : List Poll}
    (told : Timer.tick * (m.clock + took) + m.timing.deleteTimeout < m.timing.horizon)
    (hw : Waited h m.timing.deleteTimeout (Timer.tick * (m.clock + took) + m.timing.deleteTimeout)
      { m.called s (.delete h (.ok true)) took with records } polls result m') :
    Tried h true m ⟨m.clock, .ok true, m.clock + took, polls⟩ result m' := by
  refine ⟨rfl, .waited told hw.waits, ?_, ?_, hw.timing,
    fun e he => ⟨(hw.failed e he).2, Or.inl (hw.failed e he).1⟩, hw.succeeded⟩
  · rw [hw.log, Attempt.entries, List.append_assoc]
    rfl
  · rw [Attempt.ended, hw.clock]
    rfl

/-- An attempt is made of its request and its wait, whatever status the stack is live in. -/
theorem tried_deleteOnce (hp : b.FailsPlainly) (hi : 0 < m.timing.pollInterval) (hl : h.LiveIn m.records)
    (hd : m.deleteOnce b h block = (result, m')) : ∃ a, Tried h block m a result m' := by
  obtain ⟨source, hlive, hheld⟩ := id hl
  obtain ⟨answer, s, took, hask, hfail⟩ := m.askDelete_eq b h
  have hcalled : h.HeldIn (m.called s (.delete h answer) took).records source := hheld
  rw [Manager.deleteOnce, hask] at hd
  rcases answer with e | _ | _
  · cases hd
    obtain ⟨message, rfl⟩ := hp e (hfail e rfl)
    exact ⟨_, .of_failure s (.callFailed _) rfl hl⟩
  · obtain ⟨hu, hheld'⟩ := Manager.update_moves (Stack.moves_refused refusedReason source)
      (fun _ => rfl) hcalled
    dsimp only at hd
    rw [hu] at hd
    cases hd
    exact ⟨_, .of_failure s .refused rfl ⟨source, hlive, hheld'⟩⟩
  · obtain ⟨hu, hheld'⟩ := Manager.update_moves (Stack.moves_deleting hlive) Stack.name_deleting hcalled
    dsimp only at hd
    rw [hu] at hd
    cases block with
    | false =>
      cases hd
      exact ⟨⟨m.clock, .ok true, m.clock + took, []⟩, rfl, .accepted, rfl, rfl, rfl,
        fun _ => Checks.of_ok, fun _ => hheld'⟩
    | true =>
      dsimp only at hd
      rw [if_pos rfl] at hd
      obtain ⟨untold, rfl, rfl⟩ | ⟨told, made, hmade⟩ := waited_waitForDeletion hp hd hi hheld'
      · refine ⟨⟨m.clock, .ok true, m.clock + took, []⟩, rfl, .overflowed untold, rfl, rfl, rfl, ?_,
          Checks.of_error⟩
        rintro e ⟨⟩
        exact ⟨⟨.deleting, by decide, hheld'⟩, Or.inr ⟨rfl, rfl, if_neg (Nat.not_lt.mpr untold)⟩⟩
      · exact ⟨_, hmade.tried m s took told⟩

end Deletion
end Provision
