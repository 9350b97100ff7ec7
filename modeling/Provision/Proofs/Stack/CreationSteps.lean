import Provision.Proofs.Stack.Consistency
import Provision.Stack.Race

/-! The steps of a creation. Taken one after another they are the creation. Taken with pauses, in which the
manager may have changed, they lead on from registration: the backend accepts the submission, its id is
recorded, and after that the stack stays live whatever the creation still does. -/
namespace Provision

open Stack (lookup)

variable {σ : Type} {b : Backend σ} {name : String} {k : Creation} {h : Handle}

/-! One creation alone: its steps, one after another, are the creation. -/

/-- A creation that takes all its steps without pause, and how it ends. -/
inductive Creation.Completes (b : Backend σ) (name : String) (k : Creation) :
    Stage × Manager σ → Except StackError Stack × Manager σ → Prop
  | refused (e : StackError) (m : Manager σ) : Completes b name k (.refused e, m) (.error e, m)
  | ended (accepted : Option Handle) (result : Except StackError Stack) (m : Manager σ) :
      Completes b name k (.ended accepted result, m) (result, m)
  | step {stage : Stage} {m : Manager σ} {x : Except StackError Stack × Manager σ}
      (next : Completes b name k (k.step b name stage m) x) : Completes b name k (stage, m) x

namespace Manager
variable {m m' : Manager σ}

/-- An answer that is heard at once. -/
theorem answered_eq_called (m : Manager σ) (s : σ) (e : Event) (took : Nat) :
    ({ m with backend := s } : Manager σ).answered e m.clock (m.clock + took) = m.called s e took := by
  rw [answered, called, Nat.max_eq_right (Nat.le_add_right ..)]

/-- What follows a wait: if it succeeds, the outputs are asked for and recorded. -/
def outputsAfter (b : Backend σ) (name : String) (h : Handle) :
    Except StackError Unit × Manager σ → Except StackError Stack × Manager σ
  | (.error e, m) => (.error e, m)
  | (.ok _, m) =>
    match m.askOutputs b h with
    | (.error e, m) => (.error e, m)
    | (.ok values, m) => m.updated name (Stack.withOutputs (flattenOutputs values))

theorem sendFetch_completes (m : Manager σ) :
    k.Completes b name (m.sendFetch b h) (outputsAfter b name h (.ok (), m)) := by
  rcases hreply : b.outputs m.clock h m.backend with ⟨⟨result, took⟩, s⟩
  rw [sendFetch, outputsAfter, askOutputs, hreply]
  refine .step ?_
  dsimp only [Creation.step, Sent.due]
  rw [answered_eq_called]
  cases result with
  | error e => exact .ended _ _ _
  | ok values => exact .step (.ended _ _ _)

theorem sendPoll_completes (timeout deadline polls : Nat) (m : Manager σ) :
    k.Completes b name (m.sendPoll b h ⟨timeout, deadline, polls⟩)
      (outputsAfter b name h (awaitCreation b h timeout deadline polls m)) := by
  induction polls generalizing m with
  | zero => exact .ended _ _ _
  | succ polls ih =>
    rcases hreply : b.status m.clock h m.backend with ⟨⟨result, took⟩, s⟩
    rw [sendPoll, awaitCreation, askStatus, hreply]
    refine .step ?_
    dsimp only [Creation.step, Sent.due]
    rw [answered_eq_called]
    cases result with
    | error e => exact .ended _ _ _
    | ok report =>
      refine .step ?_
      dsimp only [Creation.step]
      generalize m.called s (.status h (some .create) (.ok report)) took = m₁
      cases report.createVerdict with
      | complete =>
        dsimp only
        rcases m₁.update h.name (Stack.observe .createComplete) with ⟨_ | _, m₂⟩
        · exact .ended _ _ _
        · exact sendFetch_completes m₂
      | failed reason =>
        dsimp only
        rcases m₁.update h.name (Stack.failed reason .createFailed) with ⟨_ | _, m₂⟩ <;>
          exact .ended _ _ _
      | unexpected status => exact .ended _ _ _
      | pending =>
        dsimp only
        by_cases hd : deadline ≤ m₁.now
        · rw [if_pos hd, if_pos hd]
          exact .ended _ _ _
        · rw [if_neg hd, if_neg hd, pause_eq]
          refine .step ?_
          dsimp only [Creation.step]
          cases m₁.cancelAt.filter fun c => c ≤ m₁.clock ∨
              c < m₁.clock + Timer.span (min m₁.timing.pollInterval (deadline - m₁.now)) with
          | some c => exact .ended _ _ _
          | none =>
            dsimp only
            rw [Nat.max_eq_right (Nat.le_add_right ..)]
            exact ih _

end Manager

/-- What follows a submission that was answered. -/
theorem Creation.completes_finish (b : Backend σ) (name : String) (k : Creation) (h : Handle)
    (m : Manager σ) : k.Completes b name (.submitted h, m) (m.finishCreation b name h k.options) := by
  refine .step ?_
  rw [step, Manager.finishCreation]
  rcases m.update name (Stack.submitted h.id) with ⟨e | _, m₁⟩
  · exact .ended _ _ _
  · refine .step ?_
    dsimp only [step]
    cases k.options with
    | nonBlocking => exact .ended _ _ _
    | blocking timeout =>
      dsimp only
      rw [Manager.waitForCreation]
      cases m₁.deadline? timeout with
      | none => exact .ended _ _ _
      | some deadline =>
        have hwait : k.Completes b name (m₁.sendPoll b h ⟨timeout, deadline, _⟩) _ :=
          Manager.sendPoll_completes timeout deadline (pollLimit m₁.timing.pollInterval timeout) m₁
        dsimp only
        rcases hended : Manager.awaitCreation b h timeout deadline _ m₁ with ⟨e | _, m₂⟩ <;>
          rw [hended] at hwait <;> exact hwait

/-- A submission that is watched from its start. -/
theorem Manager.askSubmit_sent {m : Manager σ} (hc : ¬ m.cancelledBy m.clock = true) (name : String)
    (g : Graph) (p : SortedMap String) {result : Except StackError Handle} {took : Nat} {s : σ}
    (hreply : b.submit m.clock name g p m.backend = (⟨result, took⟩, s)) : m.askSubmit b name g p =
      match m.cancelAt.filter (· ≤ max m.clock (m.clock + took)) with
      | some c => (none, ({ m with backend := s } : Manager σ).answered (.submit name g p none) m.clock
          (min c (m.clock + took)))
      | none => (some result, m.called s (.submit name g p (some result)) took) := by
  obtain ⟨timing, backend, records, clock, cancelAt, log⟩ := m
  rw [askSubmit, if_neg hc, hreply, Nat.max_eq_right (Nat.le_add_right ..)]
  cases cancelAt with
  | none => rfl
  | some c =>
    have hlate : clock < c := by simpa [cancelledBy] using hc
    dsimp only
    by_cases hd : c ≤ clock + took
    · rw [Option.filter_some_pos (by simpa using hd), if_pos hd]
      dsimp only [called, answered]
      rw [Nat.min_eq_left hd, Nat.max_eq_right hlate.le, Nat.add_sub_cancel' hlate.le]
    · rw [Option.filter_some_neg (by simpa using hd), if_neg hd]

/-- A creation that takes its steps alone is a creation. -/
theorem Creation.completes_create (b : Backend σ) (name : String) (k : Creation) (m : Manager σ) :
    k.Completes b name (.called, m) (m.create b name k.graph k.parameters k.options) := by
  refine .step ?_
  rw [step, Manager.create]
  cases m.register name with
  | error e => exact .refused _ _
  | ok m =>
    refine .step ?_
    dsimp only
    rw [step]
    by_cases hc : m.cancelledBy m.clock = true
    · rw [if_pos hc, Manager.askSubmit, if_pos hc]
      exact .ended _ _ _
    · rcases hreply : b.submit m.clock name k.graph k.parameters m.backend with ⟨⟨result, took⟩, s⟩
      rw [if_neg hc, Manager.askSubmit_sent hc name _ _ hreply]
      refine .step ?_
      rw [step, Sent.due]
      dsimp only
      cases m.cancelAt.filter (· ≤ max m.clock (m.clock + took)) with
      | some c => exact .ended _ _ _
      | none =>
        dsimp only
        rw [Manager.answered_eq_called]
        cases result with
        | error e => exact .ended _ _ _
        | ok h => exact completes_finish b name k h _

/-! Changes of a record that is live. -/

/-- A change that keeps the name and the id, and a live stack live. -/
structure Stack.Keeps (f : Stack.Update) : Prop where
  name : ∀ s, (f s).2.name = s.name
  id : ∀ s, (f s).2.id = s.id
  live : ∀ s, s.status.Live → (f s).2.status.Live

namespace Stack

theorem keeps_observe {observed : Status} (ho : observed = .createComplete ∨ observed = .createFailed) :
    Keeps (observe observed) := by
  refine ⟨name_observe observed, id_observe observed, fun s hs => ?_⟩
  obtain ⟨name, id, outputs, reason, ⟨status, history⟩⟩ := s
  rcases ho with rfl | rfl <;> cases status <;>
    first
    | exact hs
    | exact (by decide : Status.createComplete.Live)
    | exact (by decide : Status.createFailed.Live)

theorem keeps_failed (reason : String) : Keeps (failed reason .createFailed) := by
  obtain ⟨hname, hid, hlive⟩ := keeps_observe (Or.inr rfl : Status.createFailed = _ ∨ _)
  exact ⟨fun s => hname { s with reason := some reason }, fun s => hid { s with reason := some reason },
    fun s => hlive { s with reason := some reason }⟩

theorem keeps_withOutputs (outputs : SortedMap String) : Keeps (withOutputs outputs) :=
  ⟨fun _ => rfl, fun _ => rfl, fun _ hs => hs⟩

theorem keeps_id : Keeps fun s => (.ok (), s) := ⟨fun _ => rfl, fun _ => rfl, fun _ hs => hs⟩

end Stack

namespace Manager

theorem update_live {f : Stack.Update} {m : Manager σ} (hf : Stack.Keeps f) (hl : h.LiveIn m.records) :
    h.LiveIn (m.update h.name f).2.records := by
  obtain ⟨status, hlive, s, hs, hid, rfl⟩ := hl
  refine ⟨_, hf.live s hlive, (f s).2, ?_, (hf.id s).trans hid, rfl⟩
  rw [update_eq hs]
  dsimp only
  rw [Stack.lookup_change (fun s hs => (hf.name s).trans hs), hs, Option.map_some]

end Manager

/-! What one step does. -/

/-- The backend accepts every submission, and answers with a handle of the name that was submitted. -/
def Backend.AcceptsAll (b : Backend σ) : Prop :=
  ∀ now name graph parameters s, ∃ h, (b.submit now name graph parameters s).1.result = .ok h ∧
    h.name = name

namespace Creation
variable {stage : Stage} {m : Manager σ}

/-- Where a step leads from a stage that the backend has accepted: not back, and once the id is recorded
the stack stays live under it. -/
structure Onward (h : Handle) (stage : Stage) (m : Manager σ) (x : Stage × Manager σ) : Prop where
  accepted : x.1.accepted? = some h
  cancelAt : x.2.cancelAt = m.cancelAt
  past : stage.underWay = false → x.1.underWay = false
  live : stage.underWay = false → h.LiveIn m.records → h.LiveIn x.2.records

namespace Onward

/-- The records stay as they are. -/
theorem of_records {x : Stage × Manager σ} (ha : x.1.accepted? = some h) (hc : x.2.cancelAt = m.cancelAt)
    (hp : stage.underWay = false → x.1.underWay = false) (hr : x.2.records = m.records) :
    Onward h stage m x :=
  ⟨ha, hc, hp, fun _ hl => hr ▸ hl⟩

/-- A record is changed, and the creation ends or goes on to another call. -/
theorem of_update {f : Stack.Update} {x : Stage × Manager σ} (hf : Stack.Keeps f)
    (ha : x.1.accepted? = some h) (hp : x.1.underWay = false)
    (hc : x.2.cancelAt = (m.update h.name f).2.cancelAt)
    (hr : x.2.records = (m.update h.name f).2.records) : Onward h stage m x :=
  ⟨ha, hc.trans (m.cancelAt_update _ _), fun _ => hp, fun _ hl => hr ▸ Manager.update_live hf hl⟩

theorem sendPoll {m' : Manager σ} (b : Backend σ) (w : Wait) (hc : m'.cancelAt = m.cancelAt)
    (hr : m'.records = m.records) : Onward h stage m (m'.sendPoll b h w) := by
  unfold Manager.sendPoll
  split <;> exact .of_records rfl hc (fun _ => rfl) hr

end Onward

theorem result_of_accepted {call : Sent Handle} (ha : (Stage.submitting call).accepted? = some h) :
    call.reply.result = .ok h := by
  change call.reply.result.toOption = some h at ha
  cases hr : call.reply.result with
  | error e =>
    rw [hr] at ha
    cases ha
  | ok h' =>
    rw [hr] at ha
    cases ha
    rfl

theorem step_onward (b : Backend σ) (k : Creation) (m : Manager σ) (ha : stage.accepted? = some h) :
    Onward h stage m (k.step b h.name stage m) := by
  cases stage with
  | called => cases ha
  | refused e => cases ha
  | registered => cases ha
  | submitting call =>
    rw [step]
    split
    · exact .of_records ha rfl (fun _ => rfl) rfl
    · rw [result_of_accepted ha]
      exact .of_records rfl rfl nofun rfl
  | submitted h' =>
    cases ha
    have hcancelAt := m.cancelAt_update h.name (Stack.submitted h.id)
    rw [step]
    split <;> next hu => rw [hu] at hcancelAt; exact ⟨rfl, hcancelAt, nofun, nofun⟩
  | recorded h' =>
    cases ha
    rw [step]
    split
    · exact .of_update Stack.keeps_id rfl rfl (by simp) (by simp)
    · split
      · exact .of_records rfl rfl (fun _ => rfl) rfl
      · exact .sendPoll b _ rfl rfl
  | polling h' w call =>
    cases ha
    rw [step]
    split <;> exact .of_records rfl rfl (fun _ => rfl) rfl
  | told h' w report =>
    cases ha
    rw [step]
    split
    · have hkeeps := Stack.keeps_observe (Or.inl rfl : Status.createComplete = _ ∨ _)
      split
      · next hu => exact .of_update hkeeps rfl rfl (by rw [hu]) (by rw [hu])
      · next hu => exact .of_update hkeeps rfl rfl (by rw [hu]; rfl) (by rw [hu]; rfl)
    · next reason _ =>
      split <;> next hu =>
        exact .of_update (Stack.keeps_failed reason) rfl rfl (by rw [hu]) (by rw [hu])
    · exact .of_records rfl rfl (fun _ => rfl) rfl
    · split <;> exact .of_records rfl rfl (fun _ => rfl) rfl
  | asleep h' w since duration =>
    cases ha
    rw [step]
    split
    · exact .of_records rfl rfl (fun _ => rfl) rfl
    · exact .sendPoll b w rfl rfl
  | fetching h' call =>
    cases ha
    rw [step]
    split <;> exact .of_records rfl rfl (fun _ => rfl) rfl
  | fetched h' values =>
    cases ha
    exact .of_update (Stack.keeps_withOutputs (flattenOutputs values)) rfl rfl (by simp [step])
      (by simp [step])
  | ended accepted result => exact .of_records ha rfl (fun _ => rfl) rfl

/-- A creation that has made its record: its submission is not sent, or the backend has accepted it. -/
inductive Entered (name : String) : Stage → Prop
  | registered : Entered name .registered
  | sent {stage : Stage} {h : Handle} (accepted : stage.accepted? = some h) (named : h.name = name) :
      Entered name stage

/-- A submission that is not cancelled is accepted. -/
theorem step_registered (hb : b.AcceptsAll) (hc : m.cancelAt = none) (name : String) (k : Creation) :
    ∃ call h s, k.step b name .registered m = (.submitting call, { m with backend := s }) ∧
      (Stage.submitting call).accepted? = some h ∧ h.name = name := by
  obtain ⟨h, hh, hn⟩ := hb m.clock name k.graph k.parameters m.backend
  have hnot : ¬ m.cancelledBy m.clock = true := by simp [Manager.cancelledBy, hc]
  rw [step, if_neg hnot]
  refine ⟨_, h, _, rfl, ?_, hn⟩
  change (b.submit m.clock name k.graph k.parameters m.backend).1.result.toOption = some h
  rw [hh]
  rfl

/-- Once it has made its record and is not cancelled, a creation is accepted, and stays so. -/
theorem Entered.step (hb : b.AcceptsAll) (hc : m.cancelAt = none) (hs : Entered name stage)
    (k : Creation) : ∃ h, (k.step b name stage m).1.accepted? = some h ∧ h.name = name ∧
      (k.step b name stage m).2.cancelAt = none := by
  cases hs with
  | registered =>
    obtain ⟨call, h, s, hstep, haccepted, hn⟩ := step_registered hb hc name k
    rw [hstep]
    exact ⟨h, haccepted, hn, hc⟩
  | @sent _ h haccepted hn =>
    subst hn
    have honward := step_onward b k m haccepted
    exact ⟨h, honward.accepted, rfl, honward.cancelAt.trans hc⟩

theorem Entered.accepted_of_finished (hs : Entered name stage) (hf : stage.finished = true) :
    stage.accepted?.isSome = true := by
  cases hs with
  | registered => cases hf
  | sent accepted named =>
    rw [accepted]
    rfl

/-- The record of the creation is made and new, and the id is not recorded yet. -/
structure Begun (name : String) (x : Stage × Manager σ) : Prop where
  underWay : x.1.underWay = true
  entered : Entered name x.1
  new : ∃ s, x.2.find? name = some s ∧ s.status = .notCreated

/-- The id of the creation is recorded, and its stack is live. -/
structure Recorded (name : String) (h : Handle) (x : Stage × Manager σ) : Prop where
  accepted : x.1.accepted? = some h
  named : h.name = name
  past : x.1.underWay = false
  live : h.LiveIn x.2.records

theorem Begun.of_records {m' : Manager σ} (hx : Begun name (stage, m)) (hr : m'.records = m.records) :
    Begun name (stage, m') := by
  obtain ⟨s, hs, hstatus⟩ := hx.new
  rw [Manager.find?_eq_lookup, ← hr] at hs
  exact ⟨hx.underWay, hx.entered, s, hs, hstatus⟩

theorem Recorded.of_records {m' : Manager σ} (hx : Recorded name h (stage, m))
    (hr : m'.records = m.records) : Recorded name h (stage, m') :=
  ⟨hx.accepted, hx.named, hx.past, hr ▸ hx.live⟩

theorem Recorded.step (hx : Recorded name h (stage, m)) (k : Creation) :
    Recorded name h (k.step b name stage m) := by
  obtain ⟨haccepted, rfl, hpast, hlive⟩ := hx
  have honward := step_onward b k m haccepted
  exact ⟨honward.accepted, rfl, honward.past hpast, honward.live hpast hlive⟩

/-- A creation that is not cancelled goes on to the record of its id. -/
theorem Begun.step (hb : b.AcceptsAll) (hc : m.cancelAt = none) (hx : Begun name (stage, m))
    (k : Creation) : Begun name (k.step b name stage m) ∨ ∃ h, Recorded name h (k.step b name stage m) := by
  obtain ⟨hunderWay, hentered, s, hs, hstatus⟩ := hx
  cases hentered with
  | registered =>
    obtain ⟨call, h, s', hcall, haccepted, hn⟩ := step_registered hb hc name k
    rw [hcall]
    exact Or.inl ⟨rfl, .sent haccepted hn, s, hs, hstatus⟩
  | @sent _ h haccepted hn =>
    subst hn
    cases stage with
    | submitting call =>
      rw [Creation.step, hc, Option.filter_none, result_of_accepted haccepted]
      exact Or.inl ⟨rfl, .sent rfl rfl, s, hs, hstatus⟩
    | submitted h' =>
      cases haccepted
      have ha : (Event.submit h.name k.graph k.parameters (some (.ok h))).Admitted m.records :=
        ⟨⟨s, hs, hstatus⟩, fun _ hh => by cases hh; rfl⟩
      rw [Creation.step, Manager.update_eq hs, (Stack.submitted_ok h.id hstatus).1]
      exact Or.inr ⟨h, rfl, rfl, rfl, .creating, by decide, (Event.heldIn_of_submit ha).2⟩
    | registered => cases haccepted
    | _ => cases hunderWay

end Creation

end Provision
