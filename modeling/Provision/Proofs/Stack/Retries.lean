import Provision.Proofs.Stack.Attempts
import Provision.Proofs.Stack.Consistency
import Provision.Proofs.Stack.Undisturbed

/-! Deletions that are tried again. The attempts follow one another with a pause after each that fails, until
one succeeds or there are no more to make, and the deletion ends as the last one does. Between two attempts
nothing is asked of the backend, and a pause lasts for as long as a timer runs that is set to it: whole
milliseconds, and no longer than thirty years. -/
namespace Provision

namespace Deletion
variable {σ : Type} {b : Backend σ} {m m' m'' : Manager σ} {h : Handle} {block : Bool} {limit : Nat}
  {a last : Attempt} {earlier : List Attempt} {result : Except StackError Unit} {e : StackError}

/-- The first attempt is made at the time, and each that follows is made when there was a pause after the end
of the one before. -/
def Spaced (pause : Nat) : Nat → List Attempt → Prop
  | _, [] => True
  | time, a :: rest => a.asked = time ∧ Spaced pause (a.ended + pause) rest

/-- What the attempts leave in a log, the newest first. -/
def entries (h : Handle) : List Attempt → List LogEntry
  | [] => []
  | a :: rest => entries h rest ++ a.entries h

/-- When stacks were asked to be deleted, the latest time first. -/
def requestTimes (log : List LogEntry) : List Nat :=
  log.filterMap fun entry => match entry.event with
    | .delete _ _ => some entry.time
    | _ => none

/-- Only the request of an attempt asks for the deletion. -/
theorem requestTimes_entries (h : Handle) (attempts : List Attempt) (log : List LogEntry) :
    requestTimes (entries h attempts ++ log) = (attempts.map Attempt.asked).reverse ++ requestTimes log := by
  induction attempts generalizing log with
  | nil => rfl
  | cons a rest ih =>
    have hpolls : requestTimes (a.polls.map (Poll.entry h)).reverse = [] :=
      List.filterMap_eq_nil_iff.mpr (by simp [Poll.entry])
    have hrequest : requestTimes (a.entries h ++ log) = a.asked :: requestTimes log := by
      rw [Attempt.entries, List.append_assoc, requestTimes, List.filterMap_append, ← requestTimes, hpolls]
      rfl
    rw [entries, List.append_assoc, ih, hrequest, List.map_cons, List.reverse_cons, List.append_assoc]
    rfl

/-- The second manager is the first after these attempts, and the last of them ended so. There may be as many
earlier ones as the limit says. -/
structure Repeated (h : Handle) (block : Bool) (limit : Nat) (m : Manager σ) (earlier : List Attempt)
    (last : Attempt) (result : Except StackError Unit) (m' : Manager σ) : Prop where
  number : earlier.length ≤ limit
  exhausted : ∀ e, result = .error e → e ≠ .overflow → earlier.length = limit
  failed : ∀ a ∈ earlier, ∃ e, e ≠ .overflow ∧ a.Ends m.timing h.name block (.error e)
  ends : last.Ends m.timing h.name block result
  spaced : Spaced (Timer.span m.timing.retryBackoff) m.clock (earlier ++ [last])
  log : m'.log = entries h (earlier ++ [last]) ++ m.log
  clock : m'.clock = last.ended
  succeeded : result = .ok () → h.HeldIn m'.records (if block then .deleteComplete else .deleting)
  overflowed : result = .error .overflow →
    block = true ∧ m'.deadline? m'.timing.deleteTimeout = none

/-- An attempt that no other one follows. -/
theorem Tried.once (ha : Tried h block m a result m')
    (hlast : ∀ e, result = .error e → e ≠ .overflow → 0 = limit) :
    Repeated h block limit m [] a result m' := by
  refine ⟨Nat.zero_le _, hlast, nofun, ha.ends, ⟨ha.asked, trivial⟩, ha.log, ha.clock, ha.succeeded, fun he => ?_⟩
  rcases (ha.failed _ he).2 with hretryable | ⟨-, huntold⟩
  · cases hretryable
  · exact huntold

/-- An attempt that fails and the attempts after the pause. -/
theorem Tried.again (ha : Tried h block m a (.error e) m') (he : e ≠ .overflow)
    (hrest : Repeated h block limit (m'.sleep m'.timing.retryBackoff) earlier last result m'') :
    Repeated h block (limit + 1) m (a :: earlier) last result m'' := by
  have htiming : (m'.sleep m'.timing.retryBackoff).timing = m.timing := ha.timing
  have hclock : (m'.sleep m'.timing.retryBackoff).clock = a.ended + Timer.span m.timing.retryBackoff := by
    rw [← ha.clock, ← ha.timing]
    rfl
  obtain ⟨hnumber, hexhausted, hfailed, hends, hspaced, hlog, hclock', hsucceeded, hoverflowed⟩ := hrest
  rw [htiming] at hfailed hends
  rw [htiming, hclock] at hspaced
  refine ⟨Nat.succ_le_succ hnumber, fun e' hresult hne => congrArg Nat.succ (hexhausted e' hresult hne),
    List.forall_mem_cons.mpr ⟨⟨e, he, ha.ends⟩, hfailed⟩, hends, ⟨ha.asked, hspaced⟩, ?_, hclock', hsucceeded,
    hoverflowed⟩
  rw [hlog, List.cons_append, entries, List.append_assoc, ← ha.log]
  rfl

/-- The pause after a failure changes no record, so the next attempt finds what the last one left. -/
theorem repeated_deleteRepeatedly (hp : b.FailsPlainly) (hi : 0 < m.timing.pollInterval)
    (hl : h.LiveIn m.records) (hd : Manager.deleteRepeatedly b h block limit m = (result, m')) :
    ∃ earlier last, Repeated h block limit m earlier last result m' := by
  induction limit generalizing m with
  | zero =>
    obtain ⟨a, ha⟩ := tried_deleteOnce hp hi hl hd
    exact ⟨[], a, ha.once fun _ _ _ => rfl⟩
  | succ limit ih =>
    rw [Manager.deleteRepeatedly] at hd
    rcases hfirst : m.deleteOnce b h block with ⟨e | ⟨⟩, m₁⟩ <;>
      obtain ⟨a, ha⟩ := tried_deleteOnce hp hi hl hfirst <;> rw [hfirst] at hd
    · obtain ⟨hlive, hend⟩ := ha.failed e rfl
      have hretryable : e.isRetryable = true ↔ e ≠ .overflow := by
        refine ⟨?_, fun hne => hend.resolve_right fun h => hne h.1⟩
        rintro hretryable rfl
        cases hretryable
      dsimp only at hd
      by_cases he : e = .overflow
      · rw [if_neg (hretryable.not.mpr (not_not.mpr he))] at hd
        cases hd
        exact ⟨[], a, ha.once fun _ hresult hne => absurd (Except.error.inj hresult ▸ he) hne⟩
      rw [if_pos (hretryable.mpr he)] at hd
      have hi₁ : 0 < (m₁.sleep m₁.timing.retryBackoff).timing.pollInterval := ha.timing.symm ▸ hi
      have hlive₁ : h.LiveIn (m₁.sleep m₁.timing.retryBackoff).records := hlive
      obtain ⟨earlier, last, hrest⟩ := ih hi₁ hlive₁ hd
      exact ⟨a :: earlier, last, ha.again he hrest⟩
    · cases hd
      exact ⟨[], a, ha.once fun _ => Checks.of_ok⟩

end Deletion

namespace Manager
variable {σ : Type} {b : Backend σ} {m : Manager σ}

/-- In every run, and whatever handles the backend answers with, a deletion of a stack that has an id and is
not deleted is made of attempts, each with one request, and with a pause after each that is not the last. If it
comes to its end, they go on until one succeeds or as many are made as the caller allows, and the deletion
succeeds if and only if the last one does, and else ends with its error. Then the stack is deleted, or its
deletion is under way if nobody waited for it. A deletion does come to its end unless it waits and the clock
cannot tell the end of the wait. A deletion of any other name does nothing. -/
theorem delete_attempts (hp : b.FailsPlainly) {start : Manager σ} (hr : start.records = [])
    {requests : List Request} (hm : start.run b requests = m) (hi : 0 < m.timing.pollInterval)
    (name : String) (block : Bool) (retries : Nat) :
    (∀ s id, m.find? name = some s → s.id = some id → s.status ≠ .deleteComplete →
      ∃ earlier last, earlier.length + 1 ≤ max retries 1 ∧
        (∀ a ∈ earlier, a.Fails m.timing.deleteTimeout block ∧
          ∃ e, a.Ends m.timing name block (.error e)) ∧
        last.Ends m.timing name block (m.delete b name block retries).1 ∧
        (Returned (m.delete b name block retries).1 →
          (last.Fails m.timing.deleteTimeout block → earlier.length + 1 = max retries 1) ∧
          ((m.delete b name block retries).1 = .ok () ↔ ¬ last.Fails m.timing.deleteTimeout block)) ∧
        (¬ Returned (m.delete b name block retries).1 → block = true ∧
          (m.delete b name block retries).2.deadline? m.timing.deleteTimeout = none) ∧
        Deletion.Spaced (Timer.span m.timing.retryBackoff) m.clock (earlier ++ [last]) ∧
        (m.delete b name block retries).2.clock = last.ended ∧
        (m.delete b name block retries).2.log =
          Deletion.entries ⟨id, name⟩ (earlier ++ [last]) ++ m.log ∧
        Deletion.requestTimes (m.delete b name block retries).2.log =
          ((earlier ++ [last]).map Deletion.Attempt.asked).reverse ++ Deletion.requestTimes m.log ∧
        ((m.delete b name block retries).1 = .ok () →
          (⟨id, name⟩ : Handle).HeldIn (m.delete b name block retries).2.records
            (if block then .deleteComplete else .deleting))) ∧
    ((∀ s, m.find? name = some s → s.id = none ∨ s.status = .deleteComplete) →
      m.delete b name block retries = (.ok (), m)) := by
  have horderly := run_orderly hr hm
  refine ⟨fun s id hs hid hstatus => ?_, fun hnone => ?_⟩
  · have hcreated := horderly.submitted s (List.mem_of_find?_eq_some hs) (by rw [hid]; rfl)
    have hlive : (⟨id, name⟩ : Handle).LiveIn m.records :=
      ⟨s.status, ⟨hcreated, hstatus⟩, s, hs, hid, rfl⟩
    have htiming := (delete_undisturbed b name block retries m none []).timing
    rcases hd : m.delete b name block retries with ⟨result, m'⟩
    rw [hd] at htiming
    rw [delete, show m.deletable? name = _ from deletable_of_live hlive] at hd
    obtain ⟨earlier, last, hattempts⟩ := Deletion.repeated_deleteRepeatedly hp hi hlive hd
    refine ⟨earlier, last, ?_, fun a ha => ?_, hattempts.ends, fun hreturned => ⟨fun hfails => ?_, ?_⟩,
      fun hover => ?_, hattempts.spaced, hattempts.clock, hattempts.log, ?_, hattempts.succeeded⟩
    · have hnumber := hattempts.number
      omega
    · obtain ⟨e, hne, he⟩ := hattempts.failed a ha
      exact ⟨he.fails hne, e, he⟩
    · rcases result with e | _
      · have hexhausted := hattempts.exhausted e rfl fun he => hreturned (congrArg _ he)
        omega
      · exact absurd hfails hattempts.ends.not_fails
    · exact hattempts.ends.ok_iff hreturned
    · have huntold := hattempts.overflowed (not_not.mp hover)
      rwa [show m'.timing = m.timing from htiming] at huntold
    · exact hattempts.log ▸ Deletion.requestTimes_entries _ _ _
  · cases hd : m.deletable? name with
    | none => exact delete_of_none hd
    | some h =>
      obtain ⟨rfl, status, hlive, s, hs, hid, rfl⟩ := horderly.liveIn_of_deletable hd
      rcases hnone s hs with hnot | hdeleted
      · cases hid.symm.trans hnot
      · exact absurd hdeleted hlive.2

/-- Two requests are refused, and the third attempt waits until the stack is deleted. -/
theorem delete_attempts_sample : ∃ m : Manager Simulation,
    failingManager.run Simulation.backend [{ call := .create "demo" {} ∅ (.blocking Timer.second) }] = m ∧
    (∃ earlier last, earlier.length + 1 ≤ 3 ∧
      (∀ a ∈ earlier, Deletion.Attempt.Fails m.timing.deleteTimeout true a) ∧
      ¬ Deletion.Attempt.Fails m.timing.deleteTimeout true last ∧
      Deletion.Spaced (Timer.span m.timing.retryBackoff) 0 (earlier ++ [last]) ∧ last.ended = 4000 ∧
      (earlier ++ [last]).map Deletion.Attempt.asked = [0, 2000, 4000] ∧
      (⟨identifier 0, "demo"⟩ : Handle).HeldIn (m.delete Simulation.backend "demo" true 3).2.records
        .deleteComplete) ∧
    m.delete Simulation.backend "other" true 3 = (.ok (), m) := by
  have hrun : failingManager.run Simulation.backend
      [{ call := .create "demo" {} ∅ (.blocking Timer.second) }] = _ := rfl
  obtain ⟨hattempts, -⟩ := delete_attempts Simulation.failsPlainly rfl hrun (by decide) "demo" true 3
  obtain ⟨-, hnothing⟩ := delete_attempts Simulation.failsPlainly rfl hrun (by decide) "other" true 3
  obtain ⟨earlier, last, hnumber, hfailed, -, hreturned, -, hspaced, hclock, -, htimes, hheld⟩ :=
    hattempts _ _ rfl rfl (by decide)
  obtain ⟨-, hok⟩ := hreturned nofun
  have hasked : ((earlier ++ [last]).map Deletion.Attempt.asked).reverse = [4000, 2000, 0] :=
    (List.append_nil _).symm.trans htimes.symm
  exact ⟨_, rfl, ⟨earlier, last, hnumber, fun a ha => (hfailed a ha).1, hok.mp rfl, hspaced, hclock.symm,
    List.reverse_eq_iff.mp hasked, hheld rfl⟩, hnothing nofun⟩

/-- A manager of a stack that was submitted, and its backend, which refuses so many deletions. -/
def submittedManager (timing : Timing) (refusals : Nat) : Manager Simulation :=
  run Simulation.backend [{ call := .create "demo" {} ∅ .nonBlocking }] { timing, backend := { refusals } }

/-- When the deletion of this stack is requested in two attempts, the latest time first, with a pause between
them. -/
def timesWithPause (retryBackoff : Nat) : List Nat :=
  Deletion.requestTimes
    ((submittedManager { retryBackoff } 5).delete Simulation.backend "demo" true 2).2.log

/-- A pause that is longer than a timer runs, or that is not one of whole milliseconds, is not kept to. A wait
whose end the clock cannot tell does not start. -/
theorem attempts_between_pauses :
    timesWithPause (1000000000 * Timer.second) = [946080000000, 0] ∧
    (timesWithPause (1000000000 * Timer.second)).map (Timer.tick * ·) ≠ [1000000000 * Timer.second, 0] ∧
    timesWithPause (Timer.tick / 2) = [1, 0] ∧
    (timesWithPause (Timer.tick / 2)).map (Timer.tick * ·) ≠ [Timer.tick / 2, 0] ∧
    ((submittedManager { deleteTimeout := Timer.horizon } 0).delete Simulation.backend "demo"
      true 1).1 = .error .overflow := by
  refine ⟨rfl, ?_, rfl, ?_, rfl⟩ <;> decide

end Manager
end Provision
