/-! The order of keys: by code point, a proper beginning first. Encoded text compares the same way
byte by byte, so sorted tables list their keys in the order of the encoded bytes. -/
namespace Provision.CodePoints

/-- `a` comes strictly before `b`. -/
def precedes : List Char → List Char → Bool
  | _, [] => false
  | [], _ :: _ => true
  | a :: as, b :: bs => decide (a.toNat < b.toNat) || (a == b && precedes as bs)

@[simp] theorem precedes_nil (a : List Char) : precedes a [] = false := by cases a <;> rfl

@[simp] theorem precedes_cons_cons (a b : Char) (as bs : List Char) :
    precedes (a :: as) (b :: bs) = (decide (a.toNat < b.toNat) || (a == b && precedes as bs)) := rfl

theorem precedes_irrefl (a : List Char) : precedes a a = false := by
  induction a with
  | nil => rfl
  | cons c cs ih => simp [ih]

theorem precedes_trans {a b c : List Char} (hab : precedes a b = true)
    (hbc : precedes b c = true) : precedes a c = true := by
  induction a generalizing b c with
  | nil =>
    cases b with
    | nil => simp at hab
    | cons y ys => cases c with
      | nil => simp at hbc
      | cons z zs => rfl
  | cons x xs ih =>
    cases b with
    | nil => simp at hab
    | cons y ys => cases c with
      | nil => simp at hbc
      | cons z zs =>
        simp only [precedes_cons_cons, Bool.or_eq_true, decide_eq_true_eq, Bool.and_eq_true,
          beq_iff_eq] at *
        rcases hab with h | ⟨rfl, h⟩
        · rcases hbc with h' | ⟨rfl, _⟩
          · exact Or.inl (Nat.lt_trans h h')
          · exact Or.inl h
        · rcases hbc with h' | ⟨rfl, h'⟩
          · exact Or.inl h'
          · exact Or.inr ⟨rfl, ih h h'⟩

/-- Two keys of which neither comes first are the same key. -/
theorem eq_of_not_precedes {a b : List Char} (hab : precedes a b = false)
    (hba : precedes b a = false) : a = b := by
  induction a generalizing b with
  | nil => cases b with
    | nil => rfl
    | cons y ys => simp [precedes] at hab
  | cons x xs ih => cases b with
    | nil => simp [precedes] at hba
    | cons y ys =>
      simp only [precedes_cons_cons, Bool.or_eq_false_iff, decide_eq_false_iff_not] at hab hba
      have hxy : x = y := Char.toNat_inj.mp (Nat.le_antisymm (Nat.not_lt.mp hba.1)
        (Nat.not_lt.mp hab.1))
      subst hxy
      simp only [BEq.rfl, Bool.true_and] at hab hba
      rw [ih hab.2 hba.2]

end Provision.CodePoints
