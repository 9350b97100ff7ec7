import Mathlib.Logic.Relation
import Provision.Proofs.Lifecycle.Chain
import Provision.Proofs.Stack.Operations

/-! What an operation does to records and log, step by step, whatever the backend answers and also if it
answers with handles of other stacks. Nothing but changes and registrations is ever done to records. A change
keeps the names and gives no id to a stack that was not submitted, so records stay in order. -/
namespace Provision

namespace Stack
variable {name : String} {records : List Stack} {f : Stack → Stack} {s : Stack}

theorem mem_change (hs : s ∈ change name f records) : s ∈ records ∨ ∃ old ∈ records, s = f old := by
  induction records with
  | nil => cases hs
  | cons first rest ih =>
    rw [change] at hs
    split at hs
    · rcases List.mem_cons.mp hs with rfl | hs
      · exact Or.inr ⟨first, List.mem_cons_self, rfl⟩
      · exact Or.inl (List.mem_cons_of_mem _ hs)
    · rcases List.mem_cons.mp hs with rfl | hs
      · exact Or.inl List.mem_cons_self
      · rcases ih hs with hs | ⟨old, hold, rfl⟩
        · exact Or.inl (List.mem_cons_of_mem _ hs)
        · exact Or.inr ⟨old, List.mem_cons_of_mem _ hold, rfl⟩

theorem mem_renew (hs : s ∈ renew name records) : s ∈ records ∨ s = { name } := by
  unfold renew at hs
  split at hs
  · rcases mem_change hs with hs | ⟨-, -, rfl⟩
    · exact Or.inl hs
    · exact Or.inr rfl
  · rcases List.mem_append.mp hs with hs | hs
    · exact Or.inl hs
    · exact Or.inr (List.mem_singleton.mp hs)

/-- A change that keeps the name and leaves no stack with an id but without a submission. -/
structure Regular (f : Update) : Prop where
  name : ∀ s, (f s).2.name = s.name
  submitted : ∀ s, (s.id.isSome = true → s.status ≠ .notCreated) →
    (f s).2.id.isSome = true → (f s).2.status ≠ .notCreated

/-- A command that is refused leaves the status as it was. -/
theorem status_apply (c : Command) (s : Stack) :
    (apply c s).2.status = s.status ∨ (apply c s).2.status = c.target := by
  unfold apply
  split
  · next hl => exact Or.inr (Status.target_of_next (Lifecycle.apply_ok hl).1)
  · exact Or.inl rfl

theorem regular_apply (c : Command) : Regular (apply c) := by
  refine ⟨name_apply c, fun s hs hid => ?_⟩
  rw [id_apply] at hid
  rcases status_apply c s with hstatus | hstatus <;> rw [hstatus]
  · exact hs hid
  · exact c.target_ne_notCreated

theorem regular_id : Regular fun s => (.ok (), s) := ⟨fun _ => rfl, fun _ hs => hs⟩

/-- What is observed asks for a command, or for nothing. -/
theorem observe_cases (observed : Status) (s : Stack) :
    observe observed s = (.ok (), s) ∨ ∃ c, observe observed s = apply c s := by
  cases hc : s.lifecycle.status.commandTowards observed with
  | none => exact Or.inl (by simp only [observe, Lifecycle.observe, hc])
  | some c => exact Or.inr ⟨c, by simp only [observe, Lifecycle.observe, hc, apply]⟩

theorem regular_observe (observed : Status) : Regular (observe observed) := by
  refine ⟨name_observe observed, fun s hs => ?_⟩
  rcases observe_cases observed s with ho | ⟨c, ho⟩ <;> rw [ho]
  · exact hs
  · exact (regular_apply c).submitted s hs

theorem regular_failed (reason : String) (observed : Status) : Regular (failed reason observed) :=
  ⟨fun s => (regular_observe observed).name { s with reason := some reason },
    fun s => (regular_observe observed).submitted { s with reason := some reason }⟩

theorem regular_refused (reason : String) : Regular (refused reason) := ⟨fun _ => rfl, fun _ hs => hs⟩

theorem regular_withOutputs (outputs : SortedMap String) : Regular (withOutputs outputs) :=
  ⟨fun _ => rfl, fun _ hs => hs⟩

theorem regular_deleting : Regular deleting := by
  refine ⟨name_deleting, fun s hs => ?_⟩
  unfold deleting
  split
  · exact hs
  · exact (regular_apply .beginDelete).submitted s hs

/-- The id is given with the command to submit, which is refused only if the stack was submitted before. -/
theorem regular_submitted (id : String) : Regular (submitted id) := by
  refine ⟨fun s => name_apply .submit { s with id := some id }, fun s _ _ => ?_⟩
  by_cases hs : s.status = .notCreated
  · rw [(submitted_ok id hs).2.2]
    decide
  · rcases status_apply .submit { s with id := some id } with hstatus | hstatus
    · exact fun h => hs (hstatus.symm.trans h)
    · exact fun h => absurd (hstatus.symm.trans h) (Command.target_ne_notCreated .submit)

end Stack

namespace Manager
variable {σ : Type} {b : Backend σ} {m m' m'' : Manager σ} {h : Handle} {name : String} {f : Stack.Update}

/-- What an operation does next to records and log: nothing, a call, a change of a record, or a new one. -/
inductive Step (m m' : Manager σ) : Prop
  | passed (records : m'.records = m.records) (log : m'.log = m.log)
  | called {entry : LogEntry} (event : entry.event.isRegistration = false)
      (records : m'.records = m.records) (log : m'.log = entry :: m.log)
  | changed {name : String} {f : Stack.Update} (regular : Stack.Regular f)
      (records : m'.records = Stack.change name (fun s => (f s).2) m.records) (log : m'.log = m.log)
  | registered {name : String} {time : Nat} (records : m'.records = Stack.renew name m.records)
      (log : m'.log = ⟨time, .registered name⟩ :: m.log)

/-- The second manager comes after the first, in any number of steps. -/
def Steps : Manager σ → Manager σ → Prop := Relation.ReflTransGen Step

namespace Steps

theorem refl (m : Manager σ) : Steps m m := Relation.ReflTransGen.refl

theorem trans (h₁ : Steps m m') (h₂ : Steps m' m'') : Steps m m'' := Relation.ReflTransGen.trans h₁ h₂

theorem single (hs : Step m m') : Steps m m' := Relation.ReflTransGen.single hs

theorem of_same (hr : m'.records = m.records) (hl : m'.log = m.log) : Steps m m' :=
  single (.passed hr hl)

theorem of_call (m : Manager σ) {e : Event} (he : e.isRegistration = false) (s : σ) (took : Nat) :
    Steps m (m.called s e took) :=
  single (.called he rfl rfl)

theorem of_update (hf : Stack.Regular f) (name : String) (m : Manager σ) : Steps m (m.update name f).2 := by
  unfold update
  split
  · exact single (.changed hf rfl rfl)
  · exact refl m

/-- What follows a change of a record. -/
theorem of_update_then {α : Type} {k : Manager σ → Except StackError α × Manager σ}
    (hf : Stack.Regular f) (hk : ∀ m, Steps m (k m).2) (name : String) (m : Manager σ) :
    Steps m (match m.update name f with
      | (.error e, m) => (.error e, m)
      | (.ok _, m) => k m : Except StackError α × Manager σ).2 := by
  have hupdate := of_update hf name m
  rcases hu : m.update name f with ⟨e | _, m₁⟩ <;> rw [hu] at hupdate
  · exact hupdate
  · exact hupdate.trans (hk m₁)

theorem of_sleep (m : Manager σ) (duration : Nat) : Steps m (m.sleep duration) := of_same rfl rfl

theorem of_pause {duration : Nat} {ended : Bool} (hp : m.pause duration = (ended, m')) : Steps m m' :=
  of_same (pause_same hp).1 (pause_same hp).2

theorem of_register (hr : m.register name = .ok m') : Steps m m' := by
  obtain ⟨-, -, -, he⟩ | ⟨-, hok⟩ := m.register_cases name
  · cases hr.symm.trans he
  · cases hr.symm.trans hok
    exact single (.registered rfl rfl)

/-- The log only grows. -/
theorem log (hs : Steps m m') : m.log <:+ m'.log := by
  induction hs with
  | refl => exact List.suffix_refl _
  | tail _ hstep ih =>
    refine ih.trans ?_
    cases hstep with
    | passed _ hl | changed _ _ hl => rw [hl]
    | called _ _ hl | registered _ hl =>
      rw [hl]
      exact List.suffix_cons _ _

theorem orderly (hs : Steps m m') (hm : m.Orderly) : m'.Orderly := by
  induction hs with
  | refl => exact hm
  | tail _ hstep ih =>
    cases hstep with
    | passed hr | called _ hr => exact ⟨hr ▸ ih.names, hr ▸ ih.submitted⟩
    | changed hf hr =>
      refine ⟨?_, fun s hs => ?_⟩
      · rw [hr, Stack.names_change fun s hs => (hf.name s).trans hs]
        exact ih.names
      · rcases Stack.mem_change (hr ▸ hs) with hs | ⟨old, hold, rfl⟩
        · exact ih.submitted s hs
        · exact hf.submitted old (ih.submitted old hold)
    | @registered name time hr =>
      refine ⟨hr ▸ Stack.nodup_renew name ih.names, fun s hs => ?_⟩
      rcases Stack.mem_renew (hr ▸ hs) with hs | rfl
      · exact ih.submitted s hs
      · exact nofun

end Steps

/-! Creation. -/

theorem awaitCreation_steps (b : Backend σ) (h : Handle) (timeout deadline polls : Nat) (m : Manager σ) :
    Steps m (awaitCreation b h timeout deadline polls m).2 := by
  induction polls generalizing m with
  | zero => exact .refl m
  | succ polls ih =>
    obtain ⟨answer, s, took, hask, -⟩ := m.askStatus_eq b h (some .create)
    have hcalled : Steps m (m.called s (.status h (some .create) answer) took) := .of_call m rfl s took
    rw [awaitCreation, hask]
    refine hcalled.trans ?_
    rcases answer with e | r
    · exact .refl _
    · dsimp only
      cases r.createVerdict with
      | complete => exact .of_update (Stack.regular_observe _) _ _
      | failed reason => exact .of_update_then (Stack.regular_failed reason _) .refl _ _
      | unexpected status => exact .refl _
      | pending =>
        dsimp only
        split
        · exact .refl _
        · split
          · next hp => exact .of_pause hp
          · next hp => exact (Steps.of_pause hp).trans (ih _)

theorem waitForCreation_steps (b : Backend σ) (h : Handle) (timeout : Nat) (m : Manager σ) :
    Steps m (m.waitForCreation b h timeout).2 := by
  rw [waitForCreation]
  split
  · exact .refl m
  · exact awaitCreation_steps ..

theorem finishCreation_steps (b : Backend σ) (name : String) (h : Handle) (options : CreateOptions)
    (m : Manager σ) : Steps m (m.finishCreation b name h options).2 := by
  rw [finishCreation]
  refine .of_update_then (Stack.regular_submitted h.id) (fun m₁ => ?_) name m
  cases options with
  | nonBlocking =>
    dsimp only
    rw [updated_snd]
    exact .of_update Stack.regular_id name m₁
  | blocking timeout =>
    have hwaited := waitForCreation_steps b h timeout m₁
    dsimp only
    rcases hw : m₁.waitForCreation b h timeout with ⟨e | _, m₂⟩ <;> rw [hw] at hwaited
    · exact hwaited
    · obtain ⟨answer, s, took, hask, -⟩ := m₂.askOutputs_eq b h
      have hcalled : Steps m₂ (m₂.called s (.outputs h answer) took) := .of_call m₂ rfl s took
      refine (hwaited.trans hcalled).trans ?_
      dsimp only
      rw [hask]
      rcases answer with e | values
      · exact .refl _
      · dsimp only
        rw [updated_snd]
        exact .of_update (Stack.regular_withOutputs _) name _

theorem askSubmit_steps (b : Backend σ) (name : String) (g : Graph) (p : SortedMap String)
    (m : Manager σ) : Steps m (m.askSubmit b name g p).2 := by
  unfold askSubmit
  split
  · exact .refl m
  · dsimp only
    split
    · split <;> exact .of_call m rfl _ _
    · exact .of_call m rfl _ _

theorem create_steps (b : Backend σ) (name : String) (g : Graph) (p : SortedMap String)
    (options : CreateOptions) (m : Manager σ) : Steps m (m.create b name g p options).2 := by
  rw [create]
  cases hr : m.register name with
  | error e => exact .refl m
  | ok m₁ =>
    refine (Steps.of_register hr).trans ?_
    have hasked := askSubmit_steps b name g p m₁
    dsimp only
    rcases hs : m₁.askSubmit b name g p with ⟨_ | e | h, m₂⟩ <;> rw [hs] at hasked
    · exact hasked
    · exact hasked
    · exact hasked.trans (finishCreation_steps b name h options m₂)

/-! Deletion. -/

theorem awaitDeletion_steps (b : Backend σ) (h : Handle) (timeout deadline polls : Nat) (m : Manager σ) :
    Steps m (awaitDeletion b h timeout deadline polls m).2 := by
  induction polls generalizing m with
  | zero => exact .refl m
  | succ polls ih =>
    obtain ⟨answer, s, took, hask, -⟩ := m.askStatus_eq b h (some .delete)
    have hcalled : Steps m (m.called s (.status h (some .delete) answer) took) := .of_call m rfl s took
    rw [awaitDeletion, hask]
    refine hcalled.trans ?_
    rcases answer with e | r
    · exact .refl _
    · dsimp only
      cases r.deleteVerdict with
      | complete => exact .of_update (Stack.regular_observe _) _ _
      | failed reason => exact .of_update_then (Stack.regular_failed reason _) .refl _ _
      | pending =>
        dsimp only
        split
        · exact .refl _
        · exact (Steps.of_sleep _ _).trans (ih _)

theorem waitForDeletion_steps (b : Backend σ) (h : Handle) (m : Manager σ) :
    Steps m (m.waitForDeletion b h).2 := by
  rw [waitForDeletion]
  split
  · exact .refl m
  · exact awaitDeletion_steps ..

theorem deleteOnce_steps (b : Backend σ) (h : Handle) (block : Bool) (m : Manager σ) :
    Steps m (m.deleteOnce b h block).2 := by
  obtain ⟨answer, s, took, hask, -⟩ := m.askDelete_eq b h
  have hcalled : Steps m (m.called s (.delete h answer) took) := .of_call m rfl s took
  rw [deleteOnce, hask]
  refine hcalled.trans ?_
  rcases answer with e | _ | _
  · exact .refl _
  · exact .of_update_then (Stack.regular_refused _) .refl _ _
  · refine .of_update_then Stack.regular_deleting (fun m₁ => ?_) _ _
    cases block with
    | false => exact .refl m₁
    | true => exact waitForDeletion_steps b h m₁

theorem deleteRepeatedly_steps (b : Backend σ) (h : Handle) (block : Bool) (attempts : Nat)
    (m : Manager σ) : Steps m (deleteRepeatedly b h block attempts m).2 := by
  induction attempts generalizing m with
  | zero => exact deleteOnce_steps b h block m
  | succ attempts ih =>
    have honce := deleteOnce_steps b h block m
    rw [deleteRepeatedly]
    rcases hx : m.deleteOnce b h block with ⟨e | _, m₁⟩ <;> rw [hx] at honce
    · dsimp only
      split
      · exact (honce.trans (.of_sleep m₁ _)).trans (ih _)
      · exact honce
    · exact honce

theorem delete_steps (b : Backend σ) (name : String) (block : Bool) (retries : Nat) (m : Manager σ) :
    Steps m (m.delete b name block retries).2 := by
  rw [delete]
  split
  · exact .refl m
  · exact deleteRepeatedly_steps ..

theorem deleteEach_steps (b : Backend σ) (failure : Option StackError) (names : List String)
    (m : Manager σ) : Steps m (m.deleteEach b failure names).2 := by
  induction names generalizing m failure with
  | nil => exact .refl m
  | cons name rest ih =>
    have hdelete := delete_steps b name true m.timing.deleteRetries m
    rw [deleteEach]
    rcases hx : m.delete b name true m.timing.deleteRetries with ⟨e | _, m₁⟩ <;> rw [hx] at hdelete
    · dsimp only
      split
      · exact hdelete
      · exact hdelete.trans (ih _ m₁)
    · exact hdelete.trans (ih failure m₁)

end Manager
end Provision
