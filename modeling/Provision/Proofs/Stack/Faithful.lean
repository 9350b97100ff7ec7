import Provision.Proofs.Stack.Errors
import Provision.Proofs.Stack.Journal

/-! Records in step with the log, and the single steps of a manager that keep them so: calls whose
answers change nothing, and calls followed by the change that the answer asks for. -/
namespace Provision

open Stack (lookup)

/-- A submission is answered with a handle of the name that was submitted. -/
def Backend.EchoesNames {σ : Type} (b : Backend σ) : Prop :=
  ∀ now name graph parameters s h, (b.submit now name graph parameters s).1.result = .ok h →
    h.name = name

namespace Manager
variable {σ : Type} {b : Backend σ} {m m' m'' : Manager σ} {h : Handle} {name : String}

/-- The records are those that the log tells of, and every event in the log was in its place. -/
structure Faithful (m : Manager σ) : Prop where
  records : m.records = replay m.log
  lawful : Lawful m.log

/-- The second manager comes after the first, and only records of one name have changed. -/
structure After (name : String) (m m' : Manager σ) : Prop where
  log : m.log <:+ m'.log
  others : ∀ other, other ≠ name → lookup other m'.records = lookup other m.records

namespace After

theorem of_same (hr : m'.records = m.records) (hl : m'.log = m.log) : After name m m' :=
  ⟨hl ▸ List.suffix_refl _, fun _ _ => by rw [hr]⟩

theorem trans (h₁ : After name m m') (h₂ : After name m' m'') : After name m m'' :=
  ⟨h₁.log.trans h₂.log, fun other hn => (h₂.others other hn).trans (h₁.others other hn)⟩

theorem called (m : Manager σ) (s : σ) (e : Event) (took : Nat) :
    After name m (m.called s e took) :=
  ⟨List.suffix_cons _ _, fun _ _ => rfl⟩

theorem sleep (m : Manager σ) (duration : Nat) : After name m (m.sleep duration) :=
  of_same rfl rfl

theorem heldIn {status : Status} (ha : After name m m') (hn : h.name ≠ name)
    (hh : h.HeldIn m.records status) : h.HeldIn m'.records status := by
  obtain ⟨s, hs, hid, hstatus⟩ := hh
  exact ⟨s, (ha.others _ hn).trans hs, hid, hstatus⟩

end After

/-! Single steps. -/

theorem find?_eq_lookup (m : Manager σ) (name : String) : m.find? name = lookup name m.records := rfl

theorem askStatus_eq (b : Backend σ) (h : Handle) (w : Option Operation) (m : Manager σ) :
    ∃ answer s took, m.askStatus b h w = (answer, m.called s (.status h w answer) took) ∧
      ∀ e, answer = .error e → b.MayFail e :=
  ⟨_, _, _, rfl, fun _ he => .status he⟩

theorem askOutputs_eq (b : Backend σ) (h : Handle) (m : Manager σ) :
    ∃ answer s took, m.askOutputs b h = (answer, m.called s (.outputs h answer) took) ∧
      ∀ e, answer = .error e → b.MayFail e :=
  ⟨_, _, _, rfl, fun _ he => .outputs he⟩

theorem askDelete_eq (b : Backend σ) (h : Handle) (m : Manager σ) :
    ∃ answer s took, m.askDelete b h = (answer, m.called s (.delete h answer) took) ∧
      ∀ e, answer = .error e → b.MayFail e :=
  ⟨_, _, _, rfl, fun _ he => .delete he⟩

/-- A submission that is cancelled before it starts is not made. -/
theorem askSubmit_eq (hb : b.EchoesNames) (name : String) (g : Graph) (p : SortedMap String)
    (m : Manager σ) : m.askSubmit b name g p = (none, m) ∨
      ∃ answer s took, m.askSubmit b name g p = (answer, m.called s (.submit name g p answer) took) ∧
        (∀ h, answer = some (.ok h) → h.name = name) ∧ ∀ e, answer = some (.error e) → b.MayFail e := by
  have hname : ∀ h, some (b.submit m.clock name g p m.backend).1.result = some (.ok h) →
      h.name = name := fun h hh => hb _ _ _ _ _ h (Option.some.inj hh)
  have hfail : ∀ e, some (b.submit m.clock name g p m.backend).1.result = some (.error e) →
      b.MayFail e := fun e he => .submit (Option.some.inj he)
  unfold askSubmit
  split
  · exact Or.inl rfl
  · refine Or.inr ?_
    dsimp only
    split
    · split
      · exact ⟨_, _, _, rfl, fun _ h => (by cases h), fun _ h => (by cases h)⟩
      · exact ⟨_, _, _, rfl, hname, hfail⟩
    · exact ⟨_, _, _, rfl, hname, hfail⟩

/-- What a submission leaves as it was, whether it is made or not. -/
structure SubmitKeeps (m m' : Manager σ) : Prop where
  records : m'.records = m.records
  timing : m'.timing = m.timing
  cancelAt : m'.cancelAt = m.cancelAt

theorem askSubmit_same (b : Backend σ) (name : String) (g : Graph) (p : SortedMap String)
    (m : Manager σ) : SubmitKeeps m (m.askSubmit b name g p).2 := by
  unfold askSubmit
  split
  · exact ⟨rfl, rfl, rfl⟩
  · dsimp only
    split
    · split <;> exact ⟨rfl, rfl, rfl⟩
    · exact ⟨rfl, rfl, rfl⟩

theorem pause_same {duration : Nat} {ended : Bool} (hp : m.pause duration = (ended, m')) :
    m'.records = m.records ∧ m'.log = m.log := by
  unfold pause at hp
  split at hp
  · split at hp
    · cases hp
      exact ⟨rfl, rfl⟩
    · split at hp <;> cases hp <;> exact ⟨rfl, rfl⟩
  · cases hp
    exact ⟨rfl, rfl⟩

/-- A pause that is watched from its start: it ends when creation is cancelled, if that is before its own
end, and at once if creation is cancelled already. -/
theorem pause_eq (m : Manager σ) (duration : Nat) : m.pause duration =
    match m.cancelAt.filter fun c => c ≤ m.clock ∨ c < m.clock + Timer.span duration with
    | some c => (false, { m with clock := max m.clock c })
    | none => (true, m.sleep duration) := by
  obtain ⟨timing, backend, records, clock, cancelAt, log⟩ := m
  cases cancelAt with
  | none => rfl
  | some c =>
    dsimp only [pause]
    by_cases hc : c ≤ clock
    · rw [Option.filter_some_pos (by simp [hc]), if_pos hc]
      dsimp only
      rw [Nat.max_eq_left hc]
    · by_cases hd : c < clock + Timer.span duration
      · rw [Option.filter_some_pos (by simp [hd]), if_neg hc, if_pos hd]
        dsimp only
        rw [Nat.max_eq_right (Nat.le_of_not_le hc)]
      · rw [Option.filter_some_neg (by simp [hc, hd]), if_neg hc, if_neg hd]

/-- The change of a record that is there. -/
theorem update_eq {s : Stack} {f : Stack.Update} (hs : lookup name m.records = some s) :
    m.update name f =
      ((f s).1, { m with records := Stack.change name (fun s => (f s).2) m.records }) := by
  unfold update
  rw [find?_eq_lookup, hs]

/-- A change that succeeds is returned with the record as it is then. -/
theorem updated_eq {s : Stack} {f : Stack.Update} (hu : m.update name f = (.ok (), m'))
    (hs : lookup name m'.records = some s) : m.updated name f = (.ok s, m') := by
  unfold updated
  rw [hu]
  dsimp only
  rw [find?_eq_lookup, hs]

@[simp] theorem updated_snd (name : String) (f : Stack.Update) (m : Manager σ) :
    (m.updated name f).2 = (m.update name f).2 := by
  unfold updated
  rcases m.update name f with ⟨_ | _, m₁⟩
  · rfl
  · dsimp only
    split <;> rfl

/-- A change of a record that is there and in the status it is made from. -/
theorem update_moves {f : Stack.Update} {status target : Status} (hf : Stack.Moves f status target)
    (hname : ∀ s, (f s).2.name = s.name) (hh : h.HeldIn m.records status) :
    m.update h.name f =
        (.ok (), { m with records := Stack.change h.name (fun s => (f s).2) m.records }) ∧
      h.HeldIn (Stack.change h.name (fun s => (f s).2) m.records) target := by
  obtain ⟨s, hs, hid, hstatus⟩ := hh
  obtain ⟨hok, hid', hstatus'⟩ := hf s hstatus
  refine ⟨by rw [update_eq hs, hok], (f s).2, ?_, hid'.trans hid, hstatus'⟩
  rw [Stack.lookup_change (fun s hs => (hname s).trans hs), hs, Option.map_some]

/-- A change that keeps the name concerns no other record. -/
theorem After.update {f : Stack.Update} (hname : ∀ s, (f s).2.name = s.name) (m : Manager σ) :
    After name m (m.update name f).2 := by
  unfold Manager.update
  split
  · exact ⟨List.suffix_refl _, fun other hn =>
      Stack.lookup_change_of_ne (fun s hs => (hname s).trans hs) hn _⟩
  · exact .of_same rfl rfl

namespace Faithful

theorem of_same (hm : m.Faithful) (hr : m'.records = m.records) (hl : m'.log = m.log) :
    m'.Faithful :=
  ⟨by rw [hr, hl, hm.records], hl ▸ hm.lawful⟩

theorem sleep (hm : m.Faithful) (duration : Nat) : (m.sleep duration).Faithful :=
  hm.of_same rfl rfl

/-- A call whose answer changes nothing. -/
theorem called {e : Event} (hm : m.Faithful) (ha : e.Admitted m.records) (he : e.update? = none)
    (hr : e.isRegistration = false) (s : σ) (took : Nat) : (m.called s e took).Faithful := by
  refine ⟨?_, hm.records ▸ ha, hm.lawful⟩
  change m.records = e.effect (replay m.log)
  rw [Event.effect_of_none he hr, hm.records]

theorem lookup_of_mem (hm : m.Faithful) {s : Stack} (hs : s ∈ m.records) :
    lookup s.name m.records = some s :=
  Stack.lookup_of_mem (hm.records ▸ nodup_replay m.log) hs

end Faithful

/-- A call and the change that its answer makes. -/
theorem called_update {e : Event} {f : Stack.Update} {r : Stack} (ha : e.Admitted m.records)
    (he : e.update? = some (name, f)) (hr : lookup name m.records = some r) (hf : (f r).1 = .ok ())
    (s : σ) (took : Nat) : ∃ m',
      (m.called s e took).update name f = (.ok (), m') ∧ (m.Faithful → m'.Faithful) ∧
        m'.records = e.effect m.records ∧ m'.log = ⟨m.clock, e⟩ :: m.log := by
  have heffect := Event.effect_of_update he m.records
  refine ⟨{ m.called s e took with records := e.effect m.records }, ?_,
    fun hm => ⟨?_, hm.records ▸ ha, hm.lawful⟩, rfl, rfl⟩
  · rw [update_eq (m := m.called s e took) hr, hf, heffect]
    rfl
  · change e.effect m.records = e.effect (replay m.log)
    rw [hm.records]

/-- A call whose answer moves a record that is held. -/
theorem called_moves {e : Event} {f : Stack.Update} {source target : Status} (ha : e.Admitted m.records)
    (he : e.update? = some (h.name, f)) (hf : Stack.Moves f source target)
    (hh : h.HeldIn m.records source) (s : σ) (took : Nat) :
    ∃ m', (m.called s e took).update h.name f = (.ok (), m') ∧ (m.Faithful → m'.Faithful) ∧
      h.HeldIn m'.records target ∧ After h.name (m.called s e took) m' := by
  obtain ⟨r, hr, -, hstatus⟩ := id hh
  obtain ⟨m', hu, hm', hrecords, hlog⟩ := called_update ha he hr (hf r hstatus).1 s took
  refine ⟨m', hu, hm', hrecords ▸ Event.heldIn_effect he hf hh, ⟨?_, fun other hn => ?_⟩⟩
  · rw [hlog]
    exact List.suffix_refl _
  · rw [hrecords, Event.lookup_effect_of_ne he hn]
    rfl

/-- The records are in order: their names differ, and one that has an id is of a stack that was submitted. -/
structure Orderly (m : Manager σ) : Prop where
  names : (m.records.map Stack.name).Nodup
  submitted : ∀ s ∈ m.records, s.id.isSome = true → s.status ≠ .notCreated

/-- Only a live stack has a handle to delete it by. -/
theorem Orderly.liveIn_of_deletable (hm : m.Orderly) (hd : m.deletable? name = some h) :
    h.name = name ∧ h.LiveIn m.records := by
  obtain ⟨s, hs, hh⟩ := Option.bind_eq_some_iff.mp hd
  obtain ⟨id, hid, rfl⟩ := Option.map_eq_some_iff.mp hh
  have hsome : s.name = name ∧ s.status ≠ .deleteComplete := by simpa using List.find?_some hs
  have hmem := List.mem_of_find?_eq_some hs
  have hlive : s.status ≠ .notCreated := hm.submitted s hmem (by simp [hid])
  exact ⟨hsome.1, s.status, ⟨hlive, hsome.2⟩, s, Stack.lookup_of_mem hm.names hmem, hid, rfl⟩

theorem Faithful.orderly (hm : m.Faithful) : m.Orderly :=
  ⟨hm.records ▸ nodup_replay m.log, fun _ hs hid =>
    (hm.lawful.id_iff (hm.records ▸ hm.lookup_of_mem hs)).mp hid⟩

end Manager
end Provision
