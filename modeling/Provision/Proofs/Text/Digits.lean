import Mathlib.Algebra.Group.Nat.Defs
import Mathlib.Data.List.Induction
import Provision.Text.Decimal

/-! Written digits are read as the number they were written for, in every base up to sixteen, and the
longest run of digits at the start of a text is the whole of a number that is followed by something else. -/
namespace Provision.Text
variable {base : Nat}

theorem digitIn?_digitChar (hb : base ≤ 16) {d : Nat} (hd : d < base) :
    digitIn? base (Nat.digitChar d) = some d := by
  have hvalue : ∀ d < 16, digitValue? (Nat.digitChar d) = some d := by decide
  rw [digitIn?, hvalue d (Nat.lt_of_lt_of_le hd hb)]
  simp [Option.filter, hd]

theorem isDigitIn_digitChar (hb : base ≤ 16) {d : Nat} (hd : d < base) :
    isDigitIn base (Nat.digitChar d) = true := by
  rw [isDigitIn, digitIn?_digitChar hb hd]
  rfl

/-- A digit of one base is a digit of every larger one. -/
theorem isDigitIn_mono {base' : Nat} (h : base ≤ base') {c : Char} (hc : isDigitIn base c = true) :
    isDigitIn base' c = true := by
  obtain ⟨d, hd⟩ := Option.isSome_iff_exists.mp hc
  obtain ⟨hvalue, hlt⟩ := Option.filter_eq_some_iff.mp hd
  have hlt' : d < base' := Nat.lt_of_lt_of_le (of_decide_eq_true hlt) h
  exact Option.isSome_iff_exists.mpr ⟨d, Option.filter_eq_some_iff.mpr ⟨hvalue, decide_eq_true hlt'⟩⟩

/-- Digits of a number, the last of them taken off. -/
theorem toDigits_append (h : 1 < base) {n : Nat} (hn : base ≤ n) :
    Nat.toDigits base n = Nat.toDigits base (n / base) ++ [Nat.digitChar (n % base)] := by
  rw [Nat.toDigits_eq_if h, if_neg (Nat.not_lt.mpr hn)]

theorem isDigitIn_of_mem_toDigits (h : 1 < base) (hb : base ≤ 16) {n : Nat} {c : Char}
    (hc : c ∈ Nat.toDigits base n) : isDigitIn base c = true := by
  induction n using Nat.strongRecOn with
  | ind n ih =>
    by_cases hn : n < base
    · rw [Nat.toDigits_of_lt_base hn, List.mem_singleton] at hc
      rw [hc, isDigitIn_digitChar hb hn]
    · rw [toDigits_append h (Nat.not_lt.mp hn), List.mem_append, List.mem_singleton] at hc
      rcases hc with hc | rfl
      · exact ih _ (Nat.div_lt_self (by omega) h) hc
      · exact isDigitIn_digitChar hb (Nat.mod_lt _ (by omega))

theorem ofDigits_append_singleton (base : Nat) (cs : List Char) (c : Char) :
    ofDigits base (cs ++ [c]) = ofDigits base cs * base + (digitIn? base c).getD 0 := by
  simp [ofDigits]

/-- Zeros in front add nothing. -/
theorem ofDigits_zeros (count : Nat) (cs : List Char) :
    ofDigits base (List.replicate count '0' ++ cs) = ofDigits base cs := by
  have hzero : (digitIn? base '0').getD 0 = 0 := by
    cases base <;> rfl
  induction count with
  | zero => rfl
  | succ count ih =>
    rw [List.replicate_succ, List.cons_append, ofDigits, List.foldl_cons, hzero, Nat.zero_mul]
    exact ih

theorem ofDigits_toDigits (h : 1 < base) (hb : base ≤ 16) (n : Nat) :
    ofDigits base (Nat.toDigits base n) = n := by
  induction n using Nat.strongRecOn with
  | ind n ih =>
    by_cases hn : n < base
    · simp [Nat.toDigits_of_lt_base hn, ofDigits, digitIn?_digitChar hb hn]
    · have hmod : n % base < base := Nat.mod_lt _ (by omega)
      rw [toDigits_append h (Nat.not_lt.mp hn), ofDigits_append_singleton,
        ih _ (Nat.div_lt_self (by omega) h), digitIn?_digitChar hb hmod, Option.getD_some]
      exact Nat.div_add_mod' n base

/-- So many digits stand for a number below the power. -/
theorem ofDigits_lt {cs : List Char} (h : ∀ c ∈ cs, isDigitIn base c = true) :
    ofDigits base cs < base ^ cs.length := by
  induction cs using List.reverseRecOn with
  | nil => simp [ofDigits]
  | append_singleton cs c ih =>
    obtain ⟨d, hd⟩ := Option.isSome_iff_exists.mp (h c (by simp))
    have hlt : d < base := by simpa using (Option.filter_eq_some_iff.mp hd).2
    have hcs := ih fun c hc => h c (List.mem_append_left _ hc)
    rw [ofDigits_append_singleton, hd, Option.getD_some, List.length_append, List.length_singleton, Nat.pow_succ]
    calc ofDigits base cs * base + d < ofDigits base cs * base + base := Nat.add_lt_add_left hlt _
      _ = (ofDigits base cs + 1) * base := (Nat.succ_mul _ _).symm
      _ ≤ base ^ cs.length * base := Nat.mul_le_mul_right _ hcs

/-- Only zero begins with a zero. -/
theorem eq_zero_of_head?_toDigits (h : 1 < base) (hb : base ≤ 16) {n : Nat}
    (h0 : (Nat.toDigits base n).head? = some '0') : n = 0 := by
  induction n using Nat.strongRecOn with
  | ind n ih =>
    by_cases hn : n < base
    · rw [Nat.toDigits_of_lt_base hn, List.head?_cons, Option.some.injEq] at h0
      have hzero : digitIn? base '0' = some 0 := digitIn?_digitChar (d := 0) hb (by omega)
      have hdigit := digitIn?_digitChar hb hn
      rw [h0, hzero] at hdigit
      exact (Option.some.inj hdigit).symm
    · have hquotient : n / base < n := Nat.div_lt_self (by omega) h
      obtain ⟨c, cs, hcs⟩ := List.exists_cons_of_ne_nil (Nat.toDigits_ne_nil (n := n / base) (b := base))
      have hzero := ih _ hquotient (by
        rw [toDigits_append h (Nat.not_lt.mp hn), hcs] at h0
        rw [hcs]
        exact h0)
      have hpos : 0 < n / base := Nat.div_pos (Nat.not_lt.mp hn) (by omega)
      omega

/-- No number that is written has zeros in front. -/
theorem unpadded_toDigits (h : 1 < base) (hb : base ≤ 16) (n : Nat) :
    ¬ ((Nat.toDigits base n).head? = some '0' ∧ 1 < (Nat.toDigits base n).length) := by
  rintro ⟨h0, hlong⟩
  obtain rfl := eq_zero_of_head?_toDigits h hb h0
  rw [Nat.toDigits_zero] at hlong
  exact absurd hlong (by decide)

section
variable {word text : List Char}

/-- A run of digits ends where no digit follows. -/
theorem takeWhile_digits (hw : ∀ c ∈ word, isDigitIn base c = true)
    (hs : ∀ c ∈ text.head?, isDigitIn base c = false) :
    (word ++ text).takeWhile (isDigitIn base) = word := by
  rw [List.takeWhile_append_of_pos hw]
  cases text with
  | nil => simp
  | cons c rest => simp [hs c rfl]

theorem dropWhile_digits (hw : ∀ c ∈ word, isDigitIn base c = true)
    (hs : ∀ c ∈ text.head?, isDigitIn base c = false) :
    (word ++ text).dropWhile (isDigitIn base) = text := by
  rw [List.dropWhile_append_of_pos hw]
  cases text with
  | nil => rfl
  | cons c rest => simp [hs c rfl]

theorem takeWhile_toDigits (h : 1 < base) (hb : base ≤ 16) (n : Nat)
    (hs : ∀ c ∈ text.head?, isDigitIn base c = false) :
    (Nat.toDigits base n ++ text).takeWhile (isDigitIn base) = Nat.toDigits base n :=
  takeWhile_digits (fun _ hc => isDigitIn_of_mem_toDigits h hb hc) hs

theorem dropWhile_toDigits (h : 1 < base) (hb : base ≤ 16) (n : Nat)
    (hs : ∀ c ∈ text.head?, isDigitIn base c = false) :
    (Nat.toDigits base n ++ text).dropWhile (isDigitIn base) = text :=
  dropWhile_digits (fun _ hc => isDigitIn_of_mem_toDigits h hb hc) hs

end
end Provision.Text
