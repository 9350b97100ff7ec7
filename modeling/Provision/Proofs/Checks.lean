import Mathlib.Data.List.Forall2

/-! Chains of checks: what is known once a chain has ended without an error, and which error it is that
ends a chain. -/
namespace Provision.Checks
variable {ε α β γ : Type}

theorem bind_ok {x : Except ε α} {f : α → Except ε β} {b : β} (h : (x >>= f) = .ok b) :
    ∃ a, x = .ok a ∧ f a = .ok b := by
  cases x with
  | error e => cases h
  | ok a => exact ⟨a, rfl, h⟩

theorem map_ok {x : Except ε α} {f : α → β} {b : β} (h : x.map f = .ok b) :
    ∃ a, x = .ok a ∧ f a = b := by
  cases x with
  | error e => cases h
  | ok a => exact ⟨a, rfl, Except.ok.inj h⟩

theorem of_error {e : ε} {a : α} {p : Prop} (h : Except.error e = .ok a) : p := by
  cases h

theorem of_ok {e : ε} {a : α} {p : Prop} (h : Except.ok a = .error e) : p := by
  cases h

theorem exists_ok {x : Except ε α} (h : x.toOption.isSome = true) : ∃ a, x = .ok a := by
  cases x with
  | error e => cases h
  | ok a => exact ⟨a, rfl⟩

/-- A check that passed everywhere gave every result from its own element. -/
theorem mapM_ok {f : α → Except ε β} {xs : List α} {ys : List β} (h : xs.mapM f = .ok ys) :
    List.Forall₂ (fun x y => f x = .ok y) xs ys := by
  induction xs generalizing ys with
  | nil =>
    cases h
    exact .nil
  | cons x xs ih =>
    rw [List.mapM_cons] at h
    obtain ⟨y, hy, h⟩ := bind_ok h
    obtain ⟨rest, hrest, h⟩ := bind_ok h
    cases h
    exact .cons hy (ih hrest)

theorem map_eq_of_forall₂ {r : α → β → Prop} {f : α → γ} {g : β → γ} {xs : List α} {ys : List β}
    (h : List.Forall₂ r xs ys) (hr : ∀ x y, r x y → f x = g y) : xs.map f = ys.map g := by
  induction h with
  | nil => rfl
  | cons hxy _ ih => rw [List.map_cons, List.map_cons, hr _ _ hxy, ih]

theorem exists_of_forall₂ {r : α → β → Prop} {xs : List α} {ys : List β} {y : β}
    (h : List.Forall₂ r xs ys) (hy : y ∈ ys) : ∃ x ∈ xs, r x y := by
  induction h with
  | nil => cases hy
  | @cons a b as bs hab _ ih =>
    rcases List.mem_cons.mp hy with rfl | hy
    · exact ⟨a, List.mem_cons_self, hab⟩
    · obtain ⟨x, hx, hr⟩ := ih hy
      exact ⟨x, List.mem_cons_of_mem _ hx, hr⟩

/-- A property of the elements handled so far and of what has become of them holds at the end. -/
theorem foldlM_ok (P : List α → β → Prop) {f : β → α → Except ε β} {xs : List α} {init last : β}
    (start : P [] init)
    (next : ∀ done x b b', P done b → f b x = .ok b' → P (done ++ [x]) b')
    (h : xs.foldlM f init = .ok last) : P xs last := by
  have go : ∀ (rest done : List α) (b : β), P done b → rest.foldlM f b = .ok last →
      P (done ++ rest) last := by
    intro rest
    induction rest with
    | nil =>
      intro done b hb h
      cases h
      simpa using hb
    | cons x rest ih =>
      intro done b hb h
      rw [List.foldlM_cons] at h
      obtain ⟨b', hx, h⟩ := bind_ok h
      simpa using ih (done ++ [x]) b' (next done x b b' hb hx) h
  exact go xs [] init start h

/-- What two states have in common they keep when the same elements are handled. -/
theorem foldlM_rel (R : β → β → Prop) {f : β → α → Except ε β} {xs : List α} {init init' last last' : β}
    (start : R init init')
    (next : ∀ x b b' c c', R b b' → f b x = .ok c → f b' x = .ok c' → R c c')
    (h : xs.foldlM f init = .ok last) (h' : xs.foldlM f init' = .ok last') : R last last' := by
  induction xs generalizing init init' with
  | nil =>
    cases h
    cases h'
    exact start
  | cons x rest ih =>
    rw [List.foldlM_cons] at h h'
    obtain ⟨b, hb, h⟩ := bind_ok h
    obtain ⟨b', hb', h'⟩ := bind_ok h'
    exact ih (next x init init' b b' start hb hb') h h'

theorem map_filter_eq_flatMap (p : α → Bool) (f : α → β) (xs : List α) :
    (xs.filter p).map f = xs.flatMap fun x => if p x then [f x] else [] := by
  induction xs with
  | nil => rfl
  | cons x xs ih =>
    rw [List.filter_cons, List.flatMap_cons, ← ih]
    split <;> rfl

/-- The computation stops at the first of the faults: it succeeds if there are none, and its error is the
first of them. -/
def Finds (x : Except ε α) (faults : List ε) : Prop :=
  match x with
  | .ok _ => faults = []
  | .error e => faults.head? = some e

namespace Finds
variable {x : Except ε α} {faults more : List ε}

theorem ok (a : α) : Finds (.ok a : Except ε α) [] := rfl

theorem error (e : ε) (rest : List ε) : Finds (.error e : Except ε α) (e :: rest) := rfl

/-- Two checks one after the other find what the first finds, and then what the second finds. -/
theorem bind {f : α → Except ε β} (hx : Finds x faults) (hf : ∀ a, x = .ok a → Finds (f a) more) :
    Finds (x >>= f) (faults ++ more) := by
  cases x with
  | error e =>
    obtain ⟨rest, rfl⟩ := List.head?_eq_some_iff.mp hx
    exact rfl
  | ok a =>
    obtain rfl : faults = [] := hx
    exact hf a rfl

/-- What follows the last check finds nothing more. -/
theorem bind_ok {f : α → Except ε β} (hx : Finds x faults) (hf : ∀ a, ∃ b, f a = .ok b) :
    Finds (x >>= f) faults := by
  have hrest := bind hx fun a _ => (hf a).elim fun b hb => hb ▸ ok b
  rwa [List.append_nil] at hrest

theorem map {f : α → β} (hx : Finds x faults) : Finds (x.map f) faults := by
  cases x <;> exact hx

/-- The same check of one element after another. -/
theorem mapM {f : α → Except ε β} {g : α → List ε} {xs : List α} (h : ∀ x ∈ xs, Finds (f x) (g x)) :
    Finds (xs.mapM f) (xs.flatMap g) := by
  induction xs with
  | nil => exact ok []
  | cons x xs ih =>
    obtain ⟨hx, hxs⟩ := List.forall_mem_cons.mp h
    rw [List.mapM_cons, List.flatMap_cons]
    exact bind hx fun y _ => bind_ok (ih hxs) fun ys => ⟨y :: ys, rfl⟩

/-- Checks whose outcome depends on those before, as long as what they depend on is known. -/
theorem foldlM (P : List α → β → Prop) {f : β → α → Except ε β} {g : α → List ε} {xs : List α} {init : β}
    (start : P [] init) (next : ∀ done x b b', P done b → f b x = .ok b' → P (done ++ [x]) b')
    (h : ∀ done x b, P done b → Finds (f b x) (g x)) : Finds (xs.foldlM f init) (xs.flatMap g) := by
  have go : ∀ (rest done : List α) (b : β), P done b → Finds (rest.foldlM f b) (rest.flatMap g) := by
    intro rest
    induction rest with
    | nil => exact fun _ b _ => ok b
    | cons x rest ih =>
      intro done b hb
      rw [List.foldlM_cons, List.flatMap_cons]
      exact bind (h done x b hb) fun b' hb' => ih (done ++ [x]) b' (next done x b b' hb hb')
  exact go xs [] init start

/-- A search for the first element that is wrong. -/
theorem search {p : α → Bool} {f : α → ε} {xs : List α} {x : Except ε β}
    (hfound : ∀ a, xs.find? p = some a → x = .error (f a))
    (hnone : xs.find? p = none → ∃ b, x = .ok b) : Finds x ((xs.filter p).map f) := by
  rw [← List.head?_filter] at hnone
  simp only [← List.head?_filter] at hfound
  cases hp : xs.filter p with
  | nil =>
    obtain ⟨b, rfl⟩ := hnone (by rw [hp]; rfl)
    exact ok b
  | cons a rest =>
    rw [hfound a (by rw [hp]; rfl)]
    exact error (f a) (rest.map f)

theorem isOk_iff (h : Finds x faults) : (∃ a, x = .ok a) ↔ faults = [] := by
  cases x with
  | error e =>
    obtain ⟨rest, rfl⟩ := List.head?_eq_some_iff.mp h
    exact iff_of_false (fun ⟨_, ha⟩ => of_error ha) (List.cons_ne_nil _ _)
  | ok a => exact iff_of_true ⟨a, rfl⟩ h

theorem error_iff (h : Finds x faults) (e : ε) : x = .error e ↔ faults.head? = some e := by
  cases x with
  | error e' =>
    obtain ⟨rest, rfl⟩ := List.head?_eq_some_iff.mp h
    exact ⟨fun he => congrArg some (Except.error.inj he),
      fun he => congrArg Except.error (Option.some.inj he)⟩
  | ok a =>
    obtain rfl : faults = [] := h
    exact iff_of_false of_ok nofun

end Finds
end Provision.Checks
