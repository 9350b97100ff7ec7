import Provision.Proofs.Checks
import Provision.Proofs.Stack.Faithful

/-! The operations of a manager keep its records in step with its log, whatever the backend answers and
whenever creation is cancelled, and every error they end with is accounted for by the log. An attempt to
delete a stack touches no other record. -/
namespace Provision

open Stack (lookup)
open StackError (accounted_of_failure)

namespace Manager
variable {σ : Type} {b : Backend σ} {m m' m'' : Manager σ} {h : Handle} {name : String}

/-- How an operation, or a part of it, may end. -/
structure Ended {α : Type} (b : Backend σ) (m : Manager σ) (result : Except StackError α)
    (m' : Manager σ) : Prop where
  faithful : m'.Faithful
  log : m.log <:+ m'.log
  accounted : ∀ e, result = .error e → e.Accounted b m.log m'.log

namespace Ended
variable {α : Type} {result : Except StackError α}

theorem of_ok {a : α} (hm : m'.Faithful) (hl : m.log <:+ m'.log) : Ended b m (.ok a) m' :=
  ⟨hm, hl, fun _ => Checks.of_ok⟩

/-- The manager found the error itself. -/
theorem of_own {e : StackError} (hm : m'.Faithful) (hl : m.log <:+ m'.log) (he : e.Own) :
    Ended b m (.error e : Except StackError α) m' :=
  ⟨hm, hl, fun _ h => Or.inl (Except.error.inj h ▸ he)⟩

theorem of_overflow (hm : m'.Faithful) (hl : m.log <:+ m'.log) :
    Ended b m (.error .overflow : Except StackError α) m' :=
  ⟨hm, hl, fun _ h => Or.inr (Or.inl (Except.error.inj h).symm)⟩

/-- The backend answered the call with the error. -/
theorem of_failure {e : StackError} {event : Event} {s : σ} {took : Nat}
    (hm : (m.called s event took).Faithful) (hf : event.failure? = some e) (hb : b.MayFail e) :
    Ended b m (.error e : Except StackError α) (m.called s event took) :=
  ⟨hm, List.suffix_cons _ _, fun _ h => Except.error.inj h ▸ accounted_of_failure hf hb⟩

/-- An operation that passes on the error of one of its parts. -/
theorem error {β : Type} {e : StackError} (he : Ended b m (.error e : Except StackError α) m') :
    Ended b m (.error e : Except StackError β) m' :=
  ⟨he.faithful, he.log, fun _ h => he.accounted _ (congrArg _ (Except.error.inj h))⟩

theorem of_log (hl : m.log <:+ m'.log) (he : Ended b m' result m'') : Ended b m result m'' :=
  ⟨he.faithful, hl.trans he.log, fun e h => (he.accounted e h).mono hl (List.suffix_refl _)⟩

end Ended

/-! The polls of a wait. -/

theorem deadline?_eq_some_iff {timeout deadline : Nat} : m.deadline? timeout = some deadline ↔
    m.now + timeout < m.timing.horizon ∧ m.now + timeout = deadline := by
  rw [deadline?, Option.ite_none_right_eq_some, Option.some_inj]

/-- The millisecond in which a wait ends. -/
theorem ticks_deadline {timeout deadline : Nat} (hd : m.deadline? timeout = some deadline) :
    Timer.ticks deadline = m.clock + Timer.ticks timeout := by
  rw [← (deadline?_eq_some_iff.mp hd).2, now, Timer.ticks_add]

/-- A wait has polls enough: the sleeps between them last as long as it does. -/
theorem pollLimit_reaches {interval : Nat} (hi : interval ≠ 0) (timeout : Nat) :
    ∃ polls, pollLimit interval timeout = polls + 1 ∧
      Timer.ticks timeout ≤ polls * Timer.span interval := by
  refine ⟨Timer.ticks timeout / Timer.span interval + 1, by rw [pollLimit, if_neg hi], ?_⟩
  rw [Nat.mul_comm]
  exact (Nat.lt_mul_div_succ _ (Timer.span_pos (Nat.pos_of_ne_zero hi))).le

/-- It still has when it sleeps: a sleep lasts a full interval, or it ends at the deadline. -/
theorem sleep_reaches {interval clock answered deadline polls : Nat} (hc : clock ≤ answered)
    (early : Timer.tick * answered < deadline)
    (hleft : Timer.ticks deadline ≤ clock + polls * Timer.span interval) :
    ∃ left, polls = left + 1 ∧ Timer.ticks deadline ≤
      answered + Timer.span (min interval (deadline - Timer.tick * answered)) +
        left * Timer.span interval := by
  have hearly := Timer.lt_ticks_iff.mpr early
  rw [Timer.span_min_sub]
  generalize Timer.ticks deadline = last at hleft hearly ⊢
  generalize Timer.span interval = span at hleft ⊢
  cases polls with
  | zero => omega
  | succ left =>
    refine ⟨left, rfl, ?_⟩
    rw [Nat.succ_mul] at hleft
    omega

/-! Creation. -/

/-- A wait that succeeds ends with a stack that is complete. -/
theorem awaitCreation_ended {timeout deadline polls : Nat} {result : Except StackError Unit}
    (hm : m.Faithful) (hh : h.HeldIn m.records .creating)
    (hw : awaitCreation b h timeout deadline polls m = (result, m')) :
    Ended b m result m' ∧ (result = .ok () → h.HeldIn m'.records .createComplete) := by
  induction polls generalizing m with
  | zero =>
    cases hw
    exact ⟨.of_own hm (List.suffix_refl _) (.timeout ..), Checks.of_error⟩
  | succ polls ih =>
    obtain ⟨answer, s, took, hask, hfail⟩ := m.askStatus_eq b h (some .create)
    have ha : (Event.status h (some .create) answer).Admitted m.records := hh
    have hlog : m.log <:+ (m.called s (.status h (some .create) answer) took).log :=
      List.suffix_cons _ _
    rw [awaitCreation, hask] at hw
    rcases answer with e | r
    · cases hw
      exact ⟨.of_failure (hm.called ha rfl rfl s took) rfl (hfail e rfl), Checks.of_error⟩
    · dsimp only at hw
      cases hv : r.createVerdict with
      | complete =>
        obtain ⟨m₁, hu, hm₁, hh₁, hafter⟩ := called_moves ha (by simp only [Event.update?, hv])
          Stack.moves_created hh s took
        rw [hv] at hw
        cases hu.symm.trans hw
        exact ⟨.of_ok (hm₁ hm) (hlog.trans hafter.log), fun _ => hh₁⟩
      | failed reason =>
        obtain ⟨m₁, hu, hm₁, -, hafter⟩ := called_moves ha (by simp only [Event.update?, hv])
          (Stack.moves_createFailed reason) hh s took
        simp only [hv, hu] at hw
        cases hw
        exact ⟨.of_own (hm₁ hm) (hlog.trans hafter.log) (.createFailed ..), Checks.of_error⟩
      | unexpected status =>
        rw [hv] at hw
        cases hw
        exact ⟨.of_own (hm.called ha (by simp only [Event.update?, hv]) rfl s took) hlog
          (.unexpected ..), Checks.of_error⟩
      | pending =>
        have hm₁ := hm.called ha (by simp only [Event.update?, hv]) rfl s took
        simp only [hv] at hw
        rcases ite_eq_iff.mp hw with ⟨-, hw⟩ | ⟨-, hw⟩
        · cases hw
          exact ⟨.of_own hm₁ hlog (.timeout ..), Checks.of_error⟩
        · split at hw
          · next hp =>
            obtain ⟨hrecords, hsame⟩ := pause_same hp
            cases hw
            exact ⟨.of_own (hm₁.of_same hrecords hsame) (hsame ▸ hlog) (.interrupted _),
              Checks.of_error⟩
          · next hp =>
            obtain ⟨hrecords, hsame⟩ := pause_same hp
            obtain ⟨hend, hcomplete⟩ := ih (hm₁.of_same hrecords hsame) (hrecords ▸ hh) hw
            exact ⟨.of_log (hsame ▸ hlog) hend, hcomplete⟩

theorem waitForCreation_ended {timeout : Nat} {result : Except StackError Unit} (hm : m.Faithful)
    (hh : h.HeldIn m.records .creating) (hw : m.waitForCreation b h timeout = (result, m')) :
    Ended b m result m' ∧ (result = .ok () → h.HeldIn m'.records .createComplete) := by
  rw [waitForCreation] at hw
  split at hw
  · cases hw
    exact ⟨.of_overflow hm (List.suffix_refl _), Checks.of_error⟩
  · exact awaitCreation_ended hm hh hw

/-- After an answered submission the id is recorded before anything else is asked. -/
theorem finishCreation_ended {g : Graph} {p : SortedMap String} (hm : m.Faithful)
    (ha : (Event.submit name g p (some (.ok h))).Admitted m.records) (s : σ) (took : Nat)
    {options : CreateOptions} {result : Except StackError Stack}
    (hf : (m.called s (.submit name g p (some (.ok h))) took).finishCreation b name h options =
      (result, m')) : Ended b m result m' := by
  obtain ⟨⟨r, hr, hstatus⟩, -⟩ := id ha
  obtain ⟨m₁, hu, hm₁, hrecords, hlog⟩ := called_update ha rfl hr
    (Stack.submitted_ok h.id hstatus).1 s took
  replace hm₁ := hm₁ hm
  obtain ⟨rfl, hcreating⟩ := Event.heldIn_of_submit ha
  rw [← hrecords] at hcreating
  have hlog : m.log <:+ m₁.log := hlog ▸ List.suffix_cons _ _
  rw [finishCreation, hu] at hf
  cases options with
  | nonBlocking =>
    obtain ⟨r, hr, -⟩ := hcreating
    have hsame : m₁.update h.name (fun s => (.ok (), s)) = (.ok (), m₁) := by
      rw [update_eq hr, Stack.change_id]
    dsimp only at hf
    rw [updated_eq hsame hr] at hf
    cases hf
    exact .of_ok hm₁ hlog
  | blocking timeout =>
    refine .of_log hlog ?_
    dsimp only at hf
    split at hf
    · next e m₂ hw =>
      cases hf
      exact (waitForCreation_ended hm₁ hcreating hw).1.error
    · next m₂ hw =>
      obtain ⟨hend, hcomplete⟩ := waitForCreation_ended hm₁ hcreating hw
      have hcomplete := hcomplete rfl
      obtain ⟨answer, s, took, hask, hfail⟩ := m₂.askOutputs_eq b h
      have ha : (Event.outputs h answer).Admitted m₂.records := hcomplete
      refine .of_log hend.log ?_
      rw [hask] at hf
      rcases answer with e | values
      · cases hf
        exact .of_failure (hend.faithful.called ha rfl rfl s took) rfl (hfail e rfl)
      · obtain ⟨m₃, hu, hm₃, ⟨r, hr, -⟩, hafter⟩ := called_moves ha rfl
          (Stack.moves_withOutputs _ _) hcomplete s took
        dsimp only at hf
        rw [updated_eq hu hr] at hf
        cases hf
        exact .of_ok (hm₃ hend.faithful) ((List.suffix_cons _ _).trans hafter.log)

@[simp] theorem cancelAt_update (name : String) (f : Stack.Update) (m : Manager σ) :
    (m.update name f).2.cancelAt = m.cancelAt := by
  unfold update
  split <;> rfl

/-- A stack that is live is refused. Any other is registered: then only the records and the log change. -/
theorem register_cases (m : Manager σ) (name : String) :
    (∃ s, m.find? name = some s ∧ s.status.Live ∧ m.register name = .error (.alreadyExists name)) ∨
      (∀ s, m.find? name = some s → ¬ s.status.Live) ∧ m.register name = .ok { m with
        records := Stack.renew name m.records, log := ⟨m.clock, .registered name⟩ :: m.log } := by
  unfold register Stack.renew
  rw [find?_eq_lookup]
  cases lookup name m.records with
  | none => exact Or.inr ⟨nofun, rfl⟩
  | some s =>
    by_cases hs : s.status = .notCreated ∨ s.status = .deleteComplete
    · refine Or.inr ⟨fun s' hs' hlive => ?_, if_pos hs⟩
      obtain rfl := Option.some.inj hs'
      exact not_or.mpr hlive hs
    · exact Or.inl ⟨s, rfl, not_or.mp hs, if_neg hs⟩

/-- A record is made only where none is live, and it is new. -/
theorem register_faithful (hm : m.Faithful) (hr : m.register name = .ok m') :
    m'.Faithful ∧ m.log <:+ m'.log ∧
      ∃ s, lookup name m'.records = some s ∧ s.status = .notCreated := by
  obtain ⟨-, -, -, he⟩ | ⟨hfree, hok⟩ := m.register_cases name
  · cases hr.symm.trans he
  · cases hr.symm.trans hok
    rw [find?_eq_lookup, hm.records] at hfree
    refine ⟨⟨?_, hfree, hm.lawful⟩, List.suffix_cons _ _, { name }, Stack.lookup_renew name _, rfl⟩
    rw [hm.records]
    rfl

theorem register_error {e : StackError} (hr : m.register name = .error e) :
    e = .alreadyExists name := by
  obtain ⟨-, -, -, he⟩ | ⟨-, hok⟩ := m.register_cases name
  · exact Except.error.inj (hr.symm.trans he)
  · cases hr.symm.trans hok

theorem create_ended (hb : b.EchoesNames) (hm : m.Faithful) (name : String) (g : Graph)
    (p : SortedMap String) {options : CreateOptions} {result : Except StackError Stack}
    (hc : m.create b name g p options = (result, m')) : Ended b m result m' := by
  rw [create] at hc
  cases hr : m.register name with
  | error e =>
    rw [hr] at hc
    cases hc
    exact .of_own hm (List.suffix_refl _) (register_error hr ▸ .alreadyExists name)
  | ok m₁ =>
    obtain ⟨hm₁, hlog, hnew⟩ := register_faithful hm hr
    refine .of_log hlog ?_
    rw [hr] at hc
    dsimp only at hc
    rcases askSubmit_eq hb name g p m₁ with hask | ⟨answer, s, took, hask, hname, hfail⟩
    · rw [hask] at hc
      cases hc
      exact .of_own hm₁ (List.suffix_refl _) (.interrupted name)
    · have ha : (Event.submit name g p answer).Admitted m₁.records := ⟨hnew, hname⟩
      rw [hask] at hc
      rcases answer with _ | e | h
      · cases hc
        exact .of_own (hm₁.called ha rfl rfl s took) (List.suffix_cons _ _) (.interrupted name)
      · cases hc
        exact .of_failure (hm₁.called ha rfl rfl s took) rfl (hfail e rfl)
      · exact finishCreation_ended hm₁ ha s took hc

/-! Deletion. -/

/-- How an attempt to delete a stack may end: it concerns this stack only, and the stack is still live if the
attempt failed, and else it is in the status. -/
structure Attempted (b : Backend σ) (h : Handle) (target : Status) (m : Manager σ)
    (result : Except StackError Unit) (m' : Manager σ) : Prop extends After h.name m m' where
  faithful : m.Faithful → m'.Faithful
  accounted : ∀ e, result = .error e → e.Accounted b m.log m'.log
  failed : ∀ e, result = .error e → h.LiveIn m'.records
  succeeded : result = .ok () → h.HeldIn m'.records target
  overflow : result = .error .overflow →
    b.MayFail .overflow ∨ m'.deadline? m'.timing.deleteTimeout = none

namespace Attempted
variable {result : Except StackError Unit} {target : Status}

theorem of_after (ha : After h.name m m') (hm : m.Faithful → m'.Faithful)
    (h' : Attempted b h target m' result m'') : Attempted b h target m result m'' :=
  ⟨ha.trans h'.toAfter, fun hf => h'.faithful (hm hf),
    fun e he => (h'.accounted e he).mono ha.log (List.suffix_refl _), h'.failed, h'.succeeded, h'.overflow⟩

theorem of_ok (hm : m.Faithful → m'.Faithful) (ha : After h.name m m') (hh : h.HeldIn m'.records target) :
    Attempted b h target m (.ok ()) m' :=
  ⟨ha, hm, fun _ => Checks.of_ok, fun _ => Checks.of_ok, fun _ => hh, Checks.of_ok⟩

theorem of_own {e : StackError} (hm : m.Faithful → m'.Faithful) (ha : After h.name m m') (he : e.Own)
    (hh : h.LiveIn m'.records) : Attempted b h target m (.error e) m' :=
  ⟨ha, hm, fun _ h => Or.inl (Except.error.inj h ▸ he), fun _ _ => hh, Checks.of_error,
    fun h => absurd (Except.error.inj h) he.ne_overflow⟩

theorem of_failure {e : StackError} {event : Event} {s : σ} {took : Nat}
    (hm : m.Faithful → (m.called s event took).Faithful) (hf : event.failure? = some e)
    (hb : b.MayFail e) (hh : h.LiveIn m.records) :
    Attempted b h target m (.error e) (m.called s event took) :=
  ⟨.called .., hm, fun _ h => Except.error.inj h ▸ accounted_of_failure hf hb, fun _ _ => hh,
    Checks.of_error, fun h => Or.inl (Except.error.inj h ▸ hb)⟩

theorem of_overflow (hn : m.deadline? m.timing.deleteTimeout = none) (hh : h.LiveIn m.records) :
    Attempted b h target m (.error .overflow) m :=
  ⟨.of_same rfl rfl, id, fun _ h => Or.inr (Or.inl (Except.error.inj h).symm), fun _ _ => hh,
    Checks.of_error, fun _ => Or.inr hn⟩

theorem toEnded (ha : Attempted b h target m result m') (hm : m.Faithful) : Ended b m result m' :=
  ⟨ha.faithful hm, ha.log, ha.accounted⟩

end Attempted

theorem awaitDeletion_attempted {timeout deadline polls : Nat} {result : Except StackError Unit}
    (hh : h.HeldIn m.records .deleting) (hw : awaitDeletion b h timeout deadline polls m = (result, m')) :
    Attempted b h .deleteComplete m result m' := by
  have hlive : ∀ {m : Manager σ}, h.HeldIn m.records .deleting → h.LiveIn m.records :=
    fun hh => ⟨_, by decide, hh⟩
  induction polls generalizing m with
  | zero =>
    cases hw
    exact .of_own id (.of_same rfl rfl) (.timeout ..) (hlive hh)
  | succ polls ih =>
    obtain ⟨answer, s, took, hask, hfail⟩ := m.askStatus_eq b h (some .delete)
    have ha : (Event.status h (some .delete) answer).Admitted m.records := hh
    rw [awaitDeletion, hask] at hw
    rcases answer with e | r
    · cases hw
      exact .of_failure (fun hm => hm.called ha rfl rfl s took) rfl (hfail e rfl) (hlive hh)
    · dsimp only at hw
      have hcalled : After h.name m (m.called s (.status h (some .delete) (.ok r)) took) := .called ..
      cases hv : r.deleteVerdict with
      | complete =>
        obtain ⟨m₁, hu, hm₁, hh₁, hafter⟩ := called_moves ha (by simp only [Event.update?, hv])
          Stack.moves_deleted hh s took
        rw [hv] at hw
        cases hu.symm.trans hw
        exact .of_ok hm₁ (hcalled.trans hafter) hh₁
      | failed reason =>
        obtain ⟨m₁, hu, hm₁, hh₁, hafter⟩ := called_moves ha (by simp only [Event.update?, hv])
          (Stack.moves_deleteFailed reason) hh s took
        simp only [hv, hu] at hw
        cases hw
        exact .of_own hm₁ (hcalled.trans hafter) (.deleteFailed ..) ⟨_, by decide, hh₁⟩
      | pending =>
        have hm₁ : m.Faithful → (m.called s (.status h (some .delete) (.ok r)) took).Faithful :=
          fun hm => hm.called ha (by simp only [Event.update?, hv]) rfl s took
        simp only [hv] at hw
        rcases ite_eq_iff.mp hw with ⟨-, hw⟩ | ⟨-, hw⟩
        · cases hw
          exact .of_own hm₁ hcalled (.timeout ..) (hlive hh)
        · exact .of_after (hcalled.trans (.sleep _ _)) (fun hm => (hm₁ hm).sleep _) (ih hh hw)

theorem waitForDeletion_attempted {result : Except StackError Unit} (hh : h.HeldIn m.records .deleting)
    (hw : m.waitForDeletion b h = (result, m')) : Attempted b h .deleteComplete m result m' := by
  rw [waitForDeletion] at hw
  split at hw
  · next hn =>
    cases hw
    exact .of_overflow hn ⟨_, by decide, hh⟩
  · exact awaitDeletion_attempted hh hw

/-- The log after an attempt: it starts with a request that bears the handle. -/
def Requested (h : Handle) (m m' : Manager σ) : Prop :=
  ∃ answer, (⟨m.clock, .delete h answer⟩ :: m.log) <:+ m'.log

/-- An attempt starts with a request that bears the recorded id. -/
theorem deleteOnce_attempted {block : Bool} {result : Except StackError Unit}
    (hh : h.LiveIn m.records) (hd : m.deleteOnce b h block = (result, m')) :
    Attempted b h (if block then .deleteComplete else .deleting) m result m' ∧ Requested h m m' := by
  obtain ⟨answer, s, took, hask, hfail⟩ := m.askDelete_eq b h
  have ha : (Event.delete h answer).Admitted m.records := hh
  have hcalled : After h.name m (m.called s (.delete h answer) took) := .called ..
  rw [deleteOnce, hask] at hd
  obtain ⟨source, hlive, hheld⟩ := id hh
  rcases answer with e | _ | _
  · cases hd
    exact ⟨.of_failure (fun hm => hm.called ha rfl rfl s took) rfl (hfail e rfl) hh, _, List.suffix_refl _⟩
  · obtain ⟨m₁, hu, hm₁, hh₁, hafter⟩ := called_moves ha rfl
      (Stack.moves_refused refusedReason source) hheld s took
    simp only [hu] at hd
    cases hd
    exact ⟨.of_own hm₁ (hcalled.trans hafter) (.deleteFailed ..) ⟨source, hlive, hh₁⟩, _, hafter.log⟩
  · obtain ⟨m₁, hu, hm₁, hh₁, hafter⟩ := called_moves ha rfl (Stack.moves_deleting hlive) hheld s took
    simp only [hu] at hd
    cases block with
    | false =>
      cases hd
      exact ⟨.of_ok hm₁ (hcalled.trans hafter) hh₁, _, hafter.log⟩
    | true =>
      have hatt := waitForDeletion_attempted hh₁ hd
      exact ⟨.of_after (hcalled.trans hafter) hm₁ hatt, _, hafter.log.trans hatt.log⟩

theorem deleteRepeatedly_attempted {block : Bool} {attempts : Nat} {result : Except StackError Unit}
    (hh : h.LiveIn m.records) (hd : deleteRepeatedly b h block attempts m = (result, m')) :
    Attempted b h (if block then .deleteComplete else .deleting) m result m' ∧ Requested h m m' := by
  induction attempts generalizing m with
  | zero => exact deleteOnce_attempted hh hd
  | succ attempts ih =>
    rw [deleteRepeatedly] at hd
    rcases hfirst : m.deleteOnce b h block with ⟨e | ⟨⟩, m₁⟩
    · obtain ⟨hatt, answer, hlog⟩ := deleteOnce_attempted hh hfirst
      simp only [hfirst] at hd
      split at hd
      · have hslept : h.LiveIn (m₁.sleep m₁.timing.retryBackoff).records := hatt.failed e rfl
        obtain ⟨hrest, -⟩ := ih hslept hd
        refine ⟨.of_after (hatt.toAfter.trans (.sleep _ _)) (fun hm => (hatt.faithful hm).sleep _) hrest,
          answer, hlog.trans hrest.log⟩
      · cases hd
        exact ⟨hatt, answer, hlog⟩
    · simp only [hfirst] at hd
      cases hd
      exact deleteOnce_attempted hh hfirst

/-- A deletion of a live stack reaches the backend first of all. -/
theorem delete_attempted {block : Bool} {retries : Nat} {result : Except StackError Unit}
    (hm : m.Orderly) (hh : m.deletable? name = some h)
    (hd : m.delete b name block retries = (result, m')) : h.name = name ∧
      Attempted b h (if block then .deleteComplete else .deleting) m result m' ∧ Requested h m m' := by
  obtain ⟨hname, hlive⟩ := hm.liveIn_of_deletable hh
  rw [delete, hh] at hd
  exact ⟨hname, deleteRepeatedly_attempted hlive hd⟩

theorem delete_of_none {block : Bool} {retries : Nat} (hn : m.deletable? name = none) :
    m.delete b name block retries = (.ok (), m) := by
  rw [delete, hn]

theorem delete_after {block : Bool} {retries : Nat} {result : Except StackError Unit}
    (hm : m.Orderly) (hd : m.delete b name block retries = (result, m')) : After name m m' := by
  cases hh : m.deletable? name with
  | none =>
    rw [delete_of_none hh] at hd
    cases hd
    exact .of_same rfl rfl
  | some h =>
    obtain ⟨rfl, hatt, -⟩ := delete_attempted hm hh hd
    exact hatt.toAfter

theorem delete_ended {block : Bool} {retries : Nat} {result : Except StackError Unit}
    (hm : m.Faithful) (hd : m.delete b name block retries = (result, m')) : Ended b m result m' := by
  cases hh : m.deletable? name with
  | none =>
    rw [delete_of_none hh] at hd
    cases hd
    exact .of_ok hm (List.suffix_refl _)
  | some h =>
    obtain ⟨rfl, hatt, -⟩ := delete_attempted hm.orderly hh hd
    exact hatt.toEnded hm

/-- The failure that counts after one more deletion. -/
def failureAfter (failure : Option StackError) : Except StackError Unit → Option StackError
  | .ok _ => failure
  | .error e => failure <|> some e

theorem deleteEach_of_overflow {failure : Option StackError} {rest : List String}
    (hd : m.delete b name true m.timing.deleteRetries = (.error .overflow, m')) :
    m.deleteEach b failure (name :: rest) = (.error .overflow, m') := by
  rw [deleteEach, hd]
  exact if_pos rfl

theorem deleteEach_of_returned {failure : Option StackError} {rest : List String}
    {result : Except StackError Unit} (hd : m.delete b name true m.timing.deleteRetries = (result, m'))
    (hr : Returned result) : m.deleteEach b failure (name :: rest) =
      m'.deleteEach b (failureAfter failure result) rest := by
  rw [deleteEach, hd]
  rcases result with e | _
  · exact if_neg fun he => hr (congrArg _ he)
  · rfl

/-- Deletions one after another, with the failure of one that was made since the first manager. -/
theorem deleteEach_ended {start : Manager σ} {failure : Option StackError} {names : List String}
    {result : Except StackError Unit} (hm : m.Faithful) (hl : start.log <:+ m.log)
    (hf : ∀ e, failure = some e → e.Accounted b start.log m.log)
    (hd : m.deleteEach b failure names = (result, m')) : Ended b start result m' := by
  induction names generalizing m failure with
  | nil =>
    cases hd
    refine ⟨hm, hl, fun e he => hf e ?_⟩
    cases failure <;> cases he
    rfl
  | cons name rest ih =>
    rcases hfirst : m.delete b name true m.timing.deleteRetries with ⟨first, m₁⟩
    have hend := delete_ended hm hfirst
    by_cases hr : first = .error .overflow
    · subst hr
      rw [deleteEach_of_overflow hfirst] at hd
      cases hd
      exact .of_overflow hend.faithful (hl.trans hend.log)
    · rw [deleteEach_of_returned hfirst hr] at hd
      refine ih hend.faithful (hl.trans hend.log) (fun e he => ?_) hd
      -- The first failure counts, and the log of it is still there after the other deletions.
      cases failure with
      | some _ =>
        rcases first with e' | _ <;> exact (hf e he).mono (List.suffix_refl _) hend.log
      | none =>
        rcases first with e' | _
        · exact (hend.accounted e (congrArg _ (Option.some.inj he))).mono hl (List.suffix_refl _)
        · cases he

theorem deleteAll_ended {result : Except StackError Unit} (hm : m.Faithful)
    (hd : m.deleteAll b = (result, m')) : Ended b m result m' :=
  deleteEach_ended hm (List.suffix_refl _) (fun _ he => by cases he) hd

end Manager
end Provision
