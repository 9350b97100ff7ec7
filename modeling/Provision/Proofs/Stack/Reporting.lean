import Provision.Proofs.SortedMap
import Provision.Proofs.Stack.Faithful
import Provision.Stack.Simulated

/-! Backends that report a value for every output they were asked for. What a manager hands out after it
has created a stack there holds a value for every output of the graph. -/
namespace Provision

open Stack (lookup)

variable {σ : Type}

/-- The backend reports every output of a stack it was given. `keeps h g s` says that in the state `s` it
has the stack of the handle `h`, made of the graph `g`; asking for the status does not change that. -/
structure Backend.Reports (b : Backend σ) (keeps : Handle → Graph → σ → Prop) : Prop where
  submit : ∀ now name g p s h, (b.submit now name g p s).1.result = .ok h →
    keeps h g (b.submit now name g p s).2
  status : ∀ now h g s, keeps h g s → keeps h g (b.status now h s).2
  outputs : ∀ now h g s values, keeps h g s → (b.outputs now h s).1.result = .ok values →
    g.outputs.keys ⊆ values.map Prod.fst

namespace Manager
variable {b : Backend σ} {m m' : Manager σ} {h : Handle} {name : String} {g : Graph}
  {keeps : Handle → Graph → σ → Prop}

@[simp] theorem backend_update (name : String) (f : Stack.Update) (m : Manager σ) :
    (m.update name f).2.backend = m.backend := by
  unfold update
  split <;> rfl

@[simp] theorem backend_pause (duration : Nat) (m : Manager σ) :
    (m.pause duration).2.backend = m.backend := by
  unfold pause
  split
  · split
    · rfl
    · split <;> rfl
  · rfl

theorem backend_of_update {f : Stack.Update} {result : Except StackError Unit}
    (hu : m.update name f = (result, m')) : m'.backend = m.backend := by
  rw [← backend_update name f m, hu]

theorem backend_of_pause {duration : Nat} {ended : Bool} (hp : m.pause duration = (ended, m')) :
    m'.backend = m.backend := by
  rw [← backend_pause duration m, hp]

/-- Waiting for a creation does nothing to the backend but ask it for the status. -/
theorem backend_awaitCreation {P : σ → Prop} (hP : ∀ now s, P s → P (b.status now h s).2)
    {timeout deadline polls : Nat} (hm : P m.backend) :
    P (awaitCreation b h timeout deadline polls m).2.backend := by
  induction polls generalizing m with
  | zero => exact hm
  | succ polls ih =>
    have hasked : P (m.askStatus b h (some .create)).2.backend := hP _ _ hm
    rw [awaitCreation]
    rcases hask : m.askStatus b h (some .create) with ⟨e | r, m₁⟩ <;> rw [hask] at hasked
    · exact hasked
    · dsimp only
      cases r.createVerdict with
      | complete => simpa using hasked
      | failed reason =>
        dsimp only
        split <;> next hu => exact backend_of_update hu ▸ hasked
      | unexpected status => exact hasked
      | pending =>
        dsimp only
        split
        · exact hasked
        · split
          · next hp => exact backend_of_pause hp ▸ hasked
          · next hp => exact ih (backend_of_pause hp ▸ hasked)

theorem backend_waitForCreation {P : σ → Prop} (hstatus : ∀ now s, P s → P (b.status now h s).2)
    {timeout : Nat} (hm : P m.backend) : P (m.waitForCreation b h timeout).2.backend := by
  rw [waitForCreation]
  split
  · exact hm
  · exact backend_awaitCreation hstatus hm

/-- A submission that is answered with a handle leaves the backend with the stack. -/
theorem askSubmit_keeps (hb : b.Reports keeps) {p : SortedMap String}
    (hs : m.askSubmit b name g p = (some (.ok h), m')) : keeps h g m'.backend := by
  have hkeeps := hb.submit m.clock name g p m.backend h
  unfold askSubmit at hs
  split at hs
  · cases hs
  · dsimp only at hs
    split at hs
    · split at hs
      · cases hs
      · obtain ⟨hresult, rfl⟩ := Prod.mk.inj hs
        exact hkeeps (Option.some.inj hresult)
    · obtain ⟨hresult, rfl⟩ := Prod.mk.inj hs
      exact hkeeps (Option.some.inj hresult)

theorem updated_withOutputs {outputs : SortedMap String} {stack : Stack}
    (hu : m.updated name (Stack.withOutputs outputs) = (.ok stack, m')) : stack.outputs = outputs := by
  cases hs : lookup name m.records with
  | none =>
    unfold updated update at hu
    rw [find?_eq_lookup, hs] at hu
    cases hu
  | some s =>
    have hfound : lookup name (Stack.change name (fun s => { s with outputs }) m.records) =
        some { s with outputs } := by
      rw [Stack.lookup_change (f := fun s => { s with outputs }) fun _ hname => hname, hs]
      rfl
    have hupdate := update_eq (f := Stack.withOutputs outputs) hs
    rw [updated_eq hupdate hfound] at hu
    cases hu
    rfl

theorem finishCreation_reports (hb : b.Reports keeps) {timeout : Nat} {stack : Stack}
    (hk : keeps h g m.backend)
    (hf : m.finishCreation b name h (.blocking timeout) = (.ok stack, m')) :
    g.outputs.keys ⊆ stack.outputs.keys := by
  rw [finishCreation] at hf
  split at hf
  · cases hf
  · next m₁ hu =>
    dsimp only at hf
    split at hf
    · cases hf
    · next m₂ hw =>
      have hk₁ : keeps h g m₁.backend := backend_of_update hu ▸ hk
      have hk₂ : keeps h g (m₁.waitForCreation b h timeout).2.backend :=
        backend_waitForCreation (fun now s => hb.status now h g s) hk₁
      rw [hw] at hk₂
      split at hf
      · cases hf
      · next values m₃ ho =>
        have hvalues := hb.outputs _ h g _ values hk₂ (congrArg Prod.fst ho)
        intro key hkey
        rw [updated_withOutputs hf, flattenOutputs, SortedMap.mem_keys_ofList, List.map_map]
        exact hvalues hkey

/-- A stack that was created on such a backend, and was waited for, has a value for every output of its
graph. -/
theorem create_reports (hb : b.Reports keeps) {p : SortedMap String} {timeout : Nat} {stack : Stack}
    (hc : m.create b name g p (.blocking timeout) = (.ok stack, m')) :
    g.outputs.keys ⊆ stack.outputs.keys := by
  rw [create] at hc
  split at hc
  · cases hc
  · split at hc
    · cases hc
    · cases hc
    · next hs => exact finishCreation_reports hb (askSubmit_keeps hb hs) hc

end Manager

/-! The simulation is such a backend. -/

namespace Simulation

theorem keys_makeUpAll (g : Graph) (es : List (String × Output)) (s : Supply) :
    (makeUpAll g es s).1.map Prod.fst = es.map Prod.fst := by
  induction es generalizing s with
  | nil => rfl
  | cons e es ih =>
    simp only [makeUpAll, List.map_cons]
    rw [ih]

/-- The stack is there and has a value for every output. -/
def Keeps (h : Handle) (g : Graph) (s : Simulation) : Prop :=
  ∃ stack, s.held.find? h.id = some stack ∧ g.outputs.keys ⊆ stack.outputs.map Prod.fst

theorem reports : backend.Reports Keeps where
  submit now name g p s h hs := by
    have hkeys := keys_makeUpAll g g.outputs.entries { issued := s.issued }
    cases hs
    refine ⟨_, (SortedMap.find?_insert ..).trans (if_pos rfl), ?_⟩
    rw [List.map_map]
    exact fun key hkey => hkeys.symm ▸ hkey
  status now h g s hk := by
    obtain ⟨stack, hstack, hkeys⟩ := hk
    refine ⟨{ stack with script := (nextReport stack.script).2 }, ?_, hkeys⟩
    simp [backend, status, hstack]
  outputs now h g s values hk ho := by
    obtain ⟨stack, hstack, hkeys⟩ := hk
    simp only [backend, outputs, hstack] at ho
    cases ho
    exact hkeys

end Simulation
end Provision
