import Provision.Proofs.SortedMap
import Provision.Proofs.Stack.Polling
import Provision.Proofs.Stack.Sweep

/-! A manager of a simulation as one starts: it refuses nothing, and the first answer to whoever waits is
that all is done. So every creation under a free name succeeds, and then every deletion. -/
namespace Provision

namespace Simulation
variable {s s' s'' : Simulation} {h : Handle} {id : String} {r : Report}

/-- A simulation that refuses nothing and reports every outcome at once. -/
structure Prompt (s : Simulation) : Prop where
  createScript : s.createScript = [⟨"CREATE_COMPLETE", none⟩]
  deleteScript : s.deleteScript = [⟨"DELETE_COMPLETE", none⟩]
  refusals : s.refusals = 0

theorem prompt_fresh : ({} : Simulation).Prompt := ⟨rfl, rfl, rfl⟩

/-- The report for the id, however often it is asked for. -/
def Tells (s : Simulation) (id : String) (r : Report) : Prop :=
  ∃ outputs, s.held.find? id = some ⟨[r], outputs⟩

/-- A simulation stays prompt and forgets no stack. -/
structure Onward (s s' : Simulation) : Prop where
  prompt : s.Prompt → s'.Prompt
  held : s.held.keys ⊆ s'.held.keys

namespace Onward

theorem refl (s : Simulation) : Onward s s := ⟨fun hs => hs, List.Subset.refl _⟩

theorem trans (h₁ : Onward s s') (h₂ : Onward s' s'') : Onward s s'' :=
  ⟨fun hs => h₂.prompt (h₁.prompt hs), List.Subset.trans h₁.held h₂.held⟩

end Onward

theorem Tells.mem_held (ht : s.Tells id r) : id ∈ s.held.keys := by
  obtain ⟨outputs, hfound⟩ := ht
  exact (SortedMap.find?_isSome _ _).mp (by rw [hfound]; rfl)

theorem submit_prompt (hs : s.Prompt) (name : String) (g : Graph) :
    ∃ id s', s.submit name g = (⟨.ok ⟨id, name⟩, 0⟩, s') ∧ Onward s s' ∧
      s'.Tells id ⟨"CREATE_COMPLETE", none⟩ := by
  rcases hvalues : makeUpAll g g.outputs.entries { issued := s.issued } with ⟨values, supply⟩
  rw [submit, hvalues, hs.createScript]
  exact ⟨_, _, rfl, ⟨fun hs => ⟨rfl, hs.2, hs.3⟩, SortedMap.keys_subset_insert ..⟩, _,
    (SortedMap.find?_insert ..).trans (if_pos rfl)⟩

theorem status_tells (ht : s.Tells h.id r) :
    ∃ s', s.status h = (⟨.ok r, 0⟩, s') ∧ Onward s s' ∧ s'.Tells h.id r := by
  obtain ⟨outputs, hfound⟩ := ht
  rw [status, hfound]
  refine ⟨_, rfl, ⟨fun hs => ⟨hs.1, hs.2, hs.3⟩, SortedMap.keys_subset_insert ..⟩, outputs, ?_⟩
  exact (SortedMap.find?_insert ..).trans (if_pos rfl)

theorem outputs_tells (ht : s.Tells h.id r) : ∃ values, s.outputs h = (⟨.ok values, 0⟩, s) := by
  obtain ⟨outputs, hfound⟩ := ht
  exact ⟨outputs, by rw [Simulation.outputs, hfound]⟩

theorem delete_prompt (hs : s.Prompt) (hh : h.id ∈ s.held.keys) :
    ∃ s', s.delete h = (⟨.ok true, 0⟩, s') ∧ Onward s s' ∧ s'.Tells h.id ⟨"DELETE_COMPLETE", none⟩ := by
  obtain ⟨stack, hfound⟩ := Option.isSome_iff_exists.mp ((SortedMap.find?_isSome _ _).mpr hh)
  have hnone : ¬ 0 < s.refusals := Nat.not_lt.mpr hs.refusals.le
  rw [delete, if_neg hnone, hfound]
  refine ⟨_, rfl, ⟨fun hs => ⟨hs.1, hs.2, hs.3⟩, SortedMap.keys_subset_insert ..⟩, stack.outputs, ?_⟩
  rw [SortedMap.find?_insert, if_pos rfl, hs.deleteScript]

end Simulation

open Simulation (Tells Onward)

theorem exists_pollLimit (interval timeout : Nat) : ∃ polls, pollLimit interval timeout = polls + 1 := by
  unfold pollLimit
  split
  · exact ⟨UInt32.size - 1, rfl⟩
  · exact ⟨_, rfl⟩

namespace Manager
variable {m m' m'' : Manager Simulation} {h : Handle} {name : String} {r : Report}

/-- What the manager did at once for the stack of one name: the other records are as they were, and so is what
it was told at its start. -/
structure Served (name : String) (m m' : Manager Simulation) : Prop extends After name m m' where
  timing : m'.timing = m.timing
  clock : m'.clock = m.clock
  cancelAt : m'.cancelAt = m.cancelAt
  onward : Onward m.backend m'.backend

namespace Served

theorem trans (h₁ : Served name m m') (h₂ : Served name m' m'') : Served name m m'' :=
  ⟨h₁.toAfter.trans h₂.toAfter, h₂.timing.trans h₁.timing, h₂.clock.trans h₁.clock,
    h₂.cancelAt.trans h₁.cancelAt, h₁.onward.trans h₂.onward⟩

theorem called {s : Simulation} (hs : Onward m.backend s) (e : Event) : Served name m (m.called s e 0) :=
  ⟨.called m s e 0, rfl, rfl, rfl, hs⟩

/-- What the clock can tell the end of is as long as before. -/
theorem told_iff (h : Served name m m') (timeout : Nat) :
    m'.now + timeout < m'.timing.horizon ↔ m.now + timeout < m.timing.horizon := by
  rw [now, now, h.clock, h.timing]

theorem register (hr : m.register name = .ok m') : Served name m m' := by
  obtain ⟨-, -, -, he⟩ | ⟨-, hok⟩ := m.register_cases name
  · cases hr.symm.trans he
  · cases hr.symm.trans hok
    exact ⟨⟨List.suffix_cons _ _, fun other hn => Stack.lookup_renew_of_ne hn _⟩, rfl, rfl, rfl, .refl _⟩

theorem update {f : Stack.Update} {result : Except StackError Unit} (hname : ∀ s, (f s).2.name = s.name)
    (hu : m.update name f = (result, m')) : Served name m m' := by
  have hafter : After name m (m.update name f).2 := .update hname m
  rw [hu] at hafter
  unfold Manager.update at hu
  split at hu <;> cases hu <;> exact ⟨hafter, rfl, rfl, rfl, .refl _⟩

end Served

theorem askStatus_tells (ht : m.backend.Tells h.id r) (waiting : Option Operation) :
    ∃ m', m.askStatus Simulation.backend h waiting = (.ok r, m') ∧ Served name m m' ∧
      m'.records = m.records ∧ m'.backend.Tells h.id r := by
  obtain ⟨s, hs, honward, ht⟩ := Simulation.status_tells ht
  have hreply : Simulation.backend.status m.clock h m.backend = (⟨.ok r, 0⟩, s) := hs
  rw [askStatus, hreply]
  exact ⟨_, rfl, .called honward _, rfl, ht⟩

/-! Creation. -/

/-- The first poll tells that the stack is complete. -/
theorem waitForCreation_tells {timeout : Nat} (htold : m.now + timeout < m.timing.horizon)
    (ht : m.backend.Tells h.id ⟨"CREATE_COMPLETE", none⟩)
    (hh : h.HeldIn m.records .creating) :
    ∃ m', m.waitForCreation Simulation.backend h timeout = (.ok (), m') ∧ Served h.name m m' ∧
      h.HeldIn m'.records .createComplete ∧ m'.backend.Tells h.id ⟨"CREATE_COMPLETE", none⟩ := by
  obtain ⟨polls, hpolls⟩ := exists_pollLimit m.timing.pollInterval timeout
  obtain ⟨m₁, hask, hserved₁, hrecords, ht₁⟩ := askStatus_tells ht (some .create)
  obtain ⟨hu, hheld⟩ := update_moves Stack.moves_created (Stack.name_observe _) (hrecords ▸ hh)
  have hserved₂ := Served.update (Stack.name_observe _) hu
  refine ⟨_, ?_, hserved₁.trans hserved₂, hheld, ht₁⟩
  rw [waitForCreation, deadline?, if_pos htold]
  dsimp only
  rw [hpolls, awaitCreation, hask]
  exact hu

theorem outputsAfter_tells (ht : m.backend.Tells h.id r) (hh : h.HeldIn m.records .createComplete) :
    ∃ stack m', outputsAfter Simulation.backend h.name h (.ok (), m) = (.ok stack, m') ∧
      Served h.name m m' := by
  obtain ⟨values, hvalues⟩ := Simulation.outputs_tells ht
  have hreply : Simulation.backend.outputs m.clock h m.backend = (⟨.ok values, 0⟩, m.backend) := hvalues
  have hcalled : h.HeldIn (m.called m.backend (.outputs h (.ok values)) 0).records .createComplete := hh
  obtain ⟨hu, stack, hstack, -⟩ :=
    update_moves (Stack.moves_withOutputs (flattenOutputs values) _) (fun _ => rfl) hcalled
  have hserved := Served.update (fun _ => rfl) hu
  rw [outputsAfter, askOutputs, hreply]
  exact ⟨stack, _, updated_eq hu hstack, (Served.called (.refl _) _).trans hserved⟩

theorem askSubmit_prompt (hb : m.backend.Prompt) (hc : m.cancelAt = none) (name : String) (g : Graph)
    (p : SortedMap String) :
    ∃ id m', m.askSubmit Simulation.backend name g p = (some (.ok ⟨id, name⟩), m') ∧ Served name m m' ∧
      m'.backend.Tells id ⟨"CREATE_COMPLETE", none⟩ := by
  obtain ⟨id, s, hs, honward, ht⟩ := Simulation.submit_prompt hb name g
  have hreply : Simulation.backend.submit m.clock name g p m.backend = (⟨.ok ⟨id, name⟩, 0⟩, s) := hs
  have hnot : ¬ m.cancelledBy m.clock = true := by simp [cancelledBy, hc]
  rw [askSubmit, if_neg hnot, hreply, hc]
  exact ⟨id, _, rfl, .called honward _, ht⟩

/-- What a creation under a free name has done before it waits. -/
theorem submit_prompt (hb : m.backend.Prompt) (hc : m.cancelAt = none) (hfree : m.find? name = none)
    (g : Graph) (p : SortedMap String) (timeout : Nat) :
    ∃ m' id, m.create Simulation.backend name g p (.blocking timeout) =
        outputsAfter Simulation.backend name ⟨id, name⟩
          (m'.waitForCreation Simulation.backend ⟨id, name⟩ timeout) ∧
      Served name m m' ∧ (⟨id, name⟩ : Handle).HeldIn m'.records .creating ∧
      m'.backend.Tells id ⟨"CREATE_COMPLETE", none⟩ := by
  obtain ⟨s, hs, -⟩ | ⟨-, registered⟩ := m.register_cases name
  · cases hfree.symm.trans hs
  have hregistered := Served.register registered
  obtain ⟨id, m₂, submitted, hsubmitted, ht⟩ := askSubmit_prompt (hregistered.onward.prompt hb)
    (hregistered.cancelAt.trans hc) name g p
  obtain ⟨records, hu, hheld, hcreate⟩ := create_submitted timeout registered submitted
  have hrecorded := Served.update (fun s => Stack.name_apply .submit { s with id := some id }) hu
  exact ⟨_, id, hcreate, hregistered.trans (hsubmitted.trans hrecorded), hheld, ht⟩

theorem create_prompt (hb : m.backend.Prompt) (hc : m.cancelAt = none) (hfree : m.find? name = none)
    {timeout : Nat} (htold : m.now + timeout < m.timing.horizon) (g : Graph) (p : SortedMap String) :
    ∃ stack m' id, m.create Simulation.backend name g p (.blocking timeout) = (.ok stack, m') ∧
      Served name m m' ∧ (⟨id, name⟩ : Handle).HeldIn m'.records .createComplete ∧
      id ∈ m'.backend.held.keys := by
  obtain ⟨m₃, id, hcreate, hsubmitted, hheld, ht⟩ := submit_prompt hb hc hfree g p timeout
  obtain ⟨m₄, hwait, hwaited, hheld₄, ht₄⟩ :=
    waitForCreation_tells (h := ⟨id, name⟩) ((hsubmitted.told_iff _).mpr htold) ht hheld
  obtain ⟨stack, m₅, houtputs, hfetched⟩ := outputsAfter_tells ht₄ hheld₄
  have hend : (⟨id, name⟩ : Handle).HeldIn
      (outputsAfter Simulation.backend name ⟨id, name⟩ (.ok (), m₄)).2.records .createComplete :=
    outputsAfter_heldIn hheld₄
  rw [houtputs] at hend
  refine ⟨stack, m₅, id, by rw [hcreate, hwait, ← houtputs], ?_, hend, hfetched.onward.held ht₄.mem_held⟩
  exact hsubmitted.trans (hwaited.trans hfetched)

/-- A creation whose wait the clock cannot tell the end of. -/
theorem create_overflows (hb : m.backend.Prompt) (hc : m.cancelAt = none) (hfree : m.find? name = none)
    {timeout : Nat} (huntold : m.timing.horizon ≤ m.now + timeout) (g : Graph) (p : SortedMap String) :
    (m.create Simulation.backend name g p (.blocking timeout)).1 = .error .overflow := by
  obtain ⟨m₃, id, hcreate, hsubmitted, -⟩ := submit_prompt hb hc hfree g p timeout
  rw [hcreate, waitForCreation, deadline?,
    if_neg ((hsubmitted.told_iff timeout).not.mpr (Nat.not_lt.mpr huntold))]
  rfl

/-! Deletion. -/

theorem waitForDeletion_tells (htold : m.now + m.timing.deleteTimeout < m.timing.horizon)
    (ht : m.backend.Tells h.id ⟨"DELETE_COMPLETE", none⟩)
    (hh : h.HeldIn m.records .deleting) :
    ∃ m', m.waitForDeletion Simulation.backend h = (.ok (), m') ∧ Served h.name m m' := by
  obtain ⟨polls, hpolls⟩ := exists_pollLimit m.timing.pollInterval m.timing.deleteTimeout
  obtain ⟨m₁, hask, hserved₁, hrecords, -⟩ := askStatus_tells ht (some .delete)
  obtain ⟨hu, -⟩ := update_moves Stack.moves_deleted (Stack.name_observe _) (hrecords ▸ hh)
  have hserved₂ := Served.update (Stack.name_observe _) hu
  refine ⟨_, ?_, hserved₁.trans hserved₂⟩
  rw [waitForDeletion, deadline?, if_pos htold]
  dsimp only
  rw [hpolls, awaitDeletion, hask]
  exact hu

theorem deleteOnce_prompt (hb : m.backend.Prompt)
    (htold : m.now + m.timing.deleteTimeout < m.timing.horizon) (hh : h.LiveIn m.records)
    (hid : h.id ∈ m.backend.held.keys) :
    ∃ m', m.deleteOnce Simulation.backend h true = (.ok (), m') ∧ Served h.name m m' := by
  obtain ⟨s, hs, honward, ht⟩ := Simulation.delete_prompt hb hid
  have hreply : Simulation.backend.delete m.clock h m.backend = (⟨.ok true, 0⟩, s) := hs
  obtain ⟨status, hlive, hheld⟩ := hh
  have hcalled : h.HeldIn (m.called s (.delete h (.ok true)) 0).records status := hheld
  obtain ⟨hu, hdeleting⟩ := update_moves (Stack.moves_deleting hlive) Stack.name_deleting hcalled
  have hserved := (Served.called honward _).trans (Served.update Stack.name_deleting hu)
  obtain ⟨m₃, hwait, hwaited⟩ := waitForDeletion_tells (m := { m.called s (.delete h (.ok true)) 0 with
    records := _ }) ((hserved.told_iff _).mpr htold) ht hdeleting
  refine ⟨m₃, ?_, hserved.trans hwaited⟩
  rw [deleteOnce, askDelete, hreply]
  dsimp only
  rw [hu]
  exact hwait

theorem delete_prompt (hb : m.backend.Prompt)
    (htold : m.now + m.timing.deleteTimeout < m.timing.horizon) (hm : m.Orderly)
    (hh : m.deletable? h.name = some h) (hid : h.id ∈ m.backend.held.keys) (retries : Nat) :
    ∃ m', m.delete Simulation.backend h.name true retries = (.ok (), m') ∧ Served h.name m m' := by
  obtain ⟨m', hdelete, hserved⟩ := deleteOnce_prompt hb htold (hm.liveIn_of_deletable hh).2 hid
  refine ⟨m', ?_, hserved⟩
  rw [delete, hh]
  dsimp only
  cases max retries 1 - 1 with
  | zero => exact hdelete
  | succ attempts => rw [deleteRepeatedly, hdelete]

/-- Deletions of stacks that the simulation holds all succeed. -/
theorem sweep_prompt {hs : List Handle} (hb : m.backend.Prompt)
    (htold : m.now + m.timing.deleteTimeout < m.timing.horizon) (hm : m.Orderly)
    (hn : (hs.map Handle.name).Nodup) (hd : ∀ h ∈ hs, m.deletable? h.name = some h)
    (hids : ∀ h ∈ hs, h.id ∈ m.backend.held.keys) (retries : Nat) :
    ∀ result ∈ (m.sweep Simulation.backend retries hs).1, result = .ok () := by
  induction hs generalizing m with
  | nil => nofun
  | cons h rest ih =>
    obtain ⟨hfirst, hlater⟩ := List.forall_mem_cons.mp hd
    obtain ⟨hid, hids⟩ := List.forall_mem_cons.mp hids
    obtain ⟨hnew, hnodup⟩ := List.nodup_cons.mp hn
    obtain ⟨m₁, hdelete, hserved⟩ := delete_prompt hb htold hm hfirst hid retries
    have hsteps := delete_steps Simulation.backend h.name true retries m
    rw [hdelete] at hsteps
    have hm₁ := hsteps.orderly hm
    have htold₁ : m₁.now + m₁.timing.deleteTimeout < m₁.timing.horizon :=
      (hserved.told_iff _).mpr (hserved.timing.symm ▸ htold)
    have hkeep := hm.deletable?_after hm₁ hserved.toAfter hnew hlater
    rw [sweep_cons, hdelete]
    exact List.forall_mem_cons.mpr ⟨rfl, ih (hserved.onward.prompt hb) htold₁ hm₁ hnodup hkeep
      fun h' hh' => hserved.onward.held (hids h' hh')⟩

end Manager
end Provision
