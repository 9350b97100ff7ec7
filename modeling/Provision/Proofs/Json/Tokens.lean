import Provision.Json.Reader
import Provision.Json.Text
import Provision.Proofs.Text.Digits

/-! Strings and integers are read back from what is written for them, whatever text comes after: a string
ends at its closing quote, and a numeral where nothing follows that could belong to it. -/
namespace Provision.Json

open Text

/-! Strings. -/

/-- The piece of a string that is written for a character. -/
def piece (c : Char) : Piece :=
  if c.toNat < 32 ∧ c ∉ ['\n', '\r', '\t', Char.ofNat 8, Char.ofNat 12] then .unit c.toNat else .char c

/-- A character is written by a short escape, by its number, or as it stands. -/
theorem escape_cases (c : Char) :
    (∃ d, escape c = ['\\', d] ∧ shortEscape? d = some c ∧ piece c = .char c) ∨
    (escape c = ['\\', 'u', '0', '0', hexDigit (c.toNat / 16), hexDigit (c.toNat % 16)] ∧
      c.toNat < 32 ∧ piece c = .unit c.toNat) ∨
    (escape c = [c] ∧ c ≠ '"' ∧ c ≠ '\\' ∧ ¬ c.toNat < 32 ∧ piece c = .char c) := by
  unfold escape
  split
  · exact .inl ⟨'"', rfl, rfl, rfl⟩
  · exact .inl ⟨'\\', rfl, rfl, rfl⟩
  · exact .inl ⟨'n', rfl, rfl, rfl⟩
  · exact .inl ⟨'r', rfl, rfl, rfl⟩
  · exact .inl ⟨'t', rfl, rfl, rfl⟩
  · next _ hq hs hn hr ht =>
    split
    · next h8 =>
      obtain rfl : c = Char.ofNat 8 := by rw [← h8, Char.ofNat_toNat]
      exact .inl ⟨'b', rfl, rfl, rfl⟩
    · next h8 =>
      split
      · next h12 =>
        obtain rfl : c = Char.ofNat 12 := by rw [← h12, Char.ofNat_toNat]
        exact .inl ⟨'f', rfl, rfl, rfl⟩
      · next h12 =>
        split
        · next h32 =>
          refine .inr (.inl ⟨rfl, h32, if_pos ⟨h32, ?_⟩⟩)
          simp only [List.mem_cons, List.not_mem_nil, or_false]
          rintro (h | h | h | rfl | rfl)
          · exact hn h
          · exact hr h
          · exact ht h
          · exact h8 (by decide)
          · exact h12 (by decide)
        · next h32 => exact .inr (.inr ⟨rfl, hq, hs, h32, if_neg fun h => h32 h.1⟩)

theorem pieces?_escape (c : Char) (text : List Char) :
    pieces? (escape c ++ text) = (pieces? text).map fun e => (piece c :: e.1, e.2) := by
  have hunit : ∀ n < 32, unit? '0' '0' (hexDigit (n / 16)) (hexDigit (n % 16)) = some n := by decide
  rcases escape_cases c with ⟨d, he, hd, hc⟩ | ⟨he, h32, hc⟩ | ⟨he, hq, hs, h32, hc⟩
  · have hu : d ≠ 'u' := by
      rintro rfl
      cases hd
    rw [he, hc, List.cons_append, List.cons_append, List.nil_append, pieces?, hd]
    · cases pieces? text <;> rfl
    · exact fun _ _ _ _ _ h => absurd h hu
  · rw [he, hc]
    simp only [List.cons_append, List.nil_append]
    rw [pieces?, hunit _ h32]
    cases pieces? text <;> rfl
  · rw [he, hc, List.cons_append, List.nil_append, pieces?, if_neg h32]
    · cases pieces? text <;> rfl
    · exact hq
    · exact fun _ _ _ _ _ h => absurd h hs
    · exact fun _ _ h => absurd h hs

theorem pieces?_writeChars (cs rest : List Char) :
    pieces? (writeChars cs rest) = some (cs.map piece, rest) := by
  induction cs with
  | nil => simp [writeChars, pieces?]
  | cons c cs ih => rw [writeChars, pieces?_escape, ih]; rfl

/-- A piece that is no half of a pair stands for a character of its own. -/
theorem assemble?_unit {n : Nat} (h : n < 0xD800) (ps : List Piece) :
    assemble? (.unit n :: ps) = (assemble? ps).map (Char.ofNat n :: ·) := by
  have hl : isLeading n = false := by simp [isLeading]; omega
  have ht : isTrailing n = false := by simp [isTrailing]; omega
  cases ps with
  | nil => simp [assemble?, hl, ht]
  | cons p ps => cases p <;> simp [assemble?, hl, ht]

theorem assemble?_pieces (cs : List Char) : assemble? (cs.map piece) = some cs := by
  induction cs with
  | nil => rfl
  | cons c cs ih =>
    rw [List.map_cons, piece]
    split
    · next h => rw [assemble?_unit (by omega), ih, Char.ofNat_toNat]; rfl
    · rw [assemble?, ih]; rfl

theorem readString?_writeChars (s : String) (rest : List Char) :
    readString? (writeChars s.toList rest) = some (some s, rest) := by
  simp [readString?, pieces?_writeChars, assemble?_pieces]

/-! Integers. -/

/-- No numeral goes on with the text. -/
def Ends (text : List Char) : Prop :=
  ∀ c ∈ text.head?, isDigitIn 10 c = false ∧ c ∉ ['.', 'e', 'E']

section
variable {rest : List Char}

theorem fraction?_of_ends (h : Ends rest) : fraction? rest = some (none, rest) := by
  unfold fraction?
  split
  · next tail => simpa using (h '.' rfl).2
  · rfl

theorem exponent?_of_ends (h : Ends rest) : exponent? rest = some (none, rest) := by
  cases rest with
  | nil => rfl
  | cons c tail =>
    have hc := (h c rfl).2
    rw [exponent?, if_neg]
    simp at hc ⊢
    exact ⟨hc.2.1, hc.2.2⟩

theorem digits_toDigits (m : Nat) (h : Ends rest) :
    digits (Nat.toDigits 10 m ++ rest) = Nat.toDigits 10 m :=
  takeWhile_toDigits (by decide) (by decide) m fun c hc => (h c hc).1

theorem afterDigits_toDigits (m : Nat) (h : Ends rest) :
    afterDigits (Nat.toDigits 10 m ++ rest) = rest :=
  dropWhile_toDigits (by decide) (by decide) m fun c hc => (h c hc).1

/-- A number is written without zeros in front. -/
theorem toDigits_unpadded (m : Nat) :
    ¬ (Nat.toDigits 10 m = [] ∨
      ((Nat.toDigits 10 m).head? = some '0' ∧ 1 < (Nat.toDigits 10 m).length)) := by
  rintro (h | h)
  · exact Nat.toDigits_ne_nil h
  · exact unpadded_toDigits (by decide) (by decide) m h

theorem not_minus_of_digit {c : Char} (h : isDigitIn 10 c = true) : c ≠ '-' := by
  rintro rfl
  exact absurd h (by decide)

theorem readNumeral?_toDigits (m : Nat) (h : Ends rest) :
    readNumeral? (Nat.toDigits 10 m ++ rest) = some (⟨false, Nat.toDigits 10 m, none, none⟩, rest) := by
  rw [readNumeral?, digits_toDigits m h, afterDigits_toDigits m h, if_neg (toDigits_unpadded m),
    fraction?_of_ends h]
  · simp [exponent?_of_ends h]
  · intro tail htail
    obtain ⟨c, cs, hcs⟩ := List.exists_cons_of_ne_nil (Nat.toDigits_ne_nil (n := m) (b := 10))
    have hc : isDigitIn 10 c = true :=
      isDigitIn_of_mem_toDigits (by decide) (by decide) (hcs ▸ List.mem_cons_self)
    rw [hcs, List.cons_append, List.cons.injEq] at htail
    exact not_minus_of_digit hc htail.1

theorem readNumeral?_minus (m : Nat) (h : Ends rest) :
    readNumeral? ('-' :: (Nat.toDigits 10 m ++ rest)) =
      some (⟨true, Nat.toDigits 10 m, none, none⟩, rest) := by
  rw [readNumeral?, digits_toDigits m h, afterDigits_toDigits m h, if_neg (toDigits_unpadded m),
    fraction?_of_ends h]
  simp [exponent?_of_ends h]

theorem readNumeral?_writeInt (n : Int) (h : Ends rest) :
    readNumeral? (writeInt n rest) =
      some (⟨decide (n < 0), Nat.toDigits 10 n.natAbs, none, none⟩, rest) := by
  cases n with
  | ofNat m => exact readNumeral?_toDigits m h
  | negSucc m =>
    rw [decide_eq_true (Int.negSucc_lt_zero m)]
    exact readNumeral?_minus (m + 1) h

end

theorem value_writeInt {n : Int} (h : isInteger n = true) :
    (⟨decide (n < 0), Nat.toDigits 10 n.natAbs, none, none⟩ : Numeral).value = int n := by
  have hvalue : ofDigits 10 (Nat.toDigits 10 n.natAbs) = n.natAbs :=
    ofDigits_toDigits (by decide) (by decide) _
  have hsigned : (if n < 0 then -(n.natAbs : Int) else n.natAbs) = n := by split <;> omega
  have hminus : (decide (n < 0) && n == 0) = false := by
    by_cases hn : n = 0
    · rw [hn]
      rfl
    · rw [beq_false_of_ne hn, Bool.and_false]
  simp only [Numeral.value, hvalue, decide_eq_true_eq, hsigned, h, hminus, Option.isNone_none]
  rfl

end Provision.Json
