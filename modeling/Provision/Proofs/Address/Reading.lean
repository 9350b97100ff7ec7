import Mathlib.Data.List.Forall2
import Provision.Address.IpReader
import Provision.Proofs.Text.Digits

/-! What the readers of addresses take off the front of a text: numbers, four numbers with points between
them, and rows of groups with colons between them. Words are of any spelling, so that not only what is
written for an address can be followed through its reader. -/
namespace Provision

open Text

/-! Numbers. -/

/-- The word spells the number in at most so many digits. -/
structure Spells (base most : Nat) (word : List Char) (n : Nat) : Prop where
  ne_nil : word ≠ []
  length_le : word.length ≤ most
  digits : ∀ c ∈ word, isDigitIn base c = true
  value : ofDigits base word = n

theorem spells_toDigits {base most n : Nat} (h : 1 < base) (hb : base ≤ 16) (hm : 0 < most)
    (hn : n < base ^ most) : Spells base most (Nat.toDigits base n) n where
  ne_nil := Nat.toDigits_ne_nil
  length_le := (Nat.length_toDigits_le_iff h hm).mpr hn
  digits _ hc := isDigitIn_of_mem_toDigits h hb hc
  value := ofDigits_toDigits h hb n

section
variable {base most n : Nat} {zerosInFront : Bool} {word rest : List Char}

/-- A word with one digit more. -/
theorem Spells.snoc (h : Spells base most word n) {c : Char} {d : Nat} (hd : digitIn? base c = some d) :
    Spells base (most + 1) (word ++ [c]) (n * base + d) where
  ne_nil := by simp
  length_le := by simpa using h.length_le
  digits x hx := by
    rcases List.mem_append.mp hx with hx | hx
    · exact h.digits x hx
    · rw [List.mem_singleton.mp hx, isDigitIn, hd]
      rfl
  value := by rw [ofDigits_append_singleton, h.value, hd, Option.getD_some]

theorem readNumber?_word (h : Spells base most word n)
    (hzeros : zerosInFront = true ∨ ¬ (word.head? = some '0' ∧ 1 < word.length))
    (hrest : ∀ c ∈ rest.head?, isDigitIn base c = false) :
    readNumber? base most zerosInFront (word ++ rest) = some (n, rest) := by
  have hshort : ¬ (word = [] ∨ most < word.length) :=
    not_or.mpr ⟨h.ne_nil, Nat.not_lt.mpr h.length_le⟩
  have hzeros' : ¬ (zerosInFront = false ∧ word.head? = some '0' ∧ 1 < word.length) := by
    rintro ⟨hfalse, hzero⟩
    rcases hzeros with htrue | hnot
    · exact absurd (htrue.symm.trans hfalse) (by decide)
    · exact hnot hzero
  simp only [readNumber?, takeWhile_digits h.digits hrest, dropWhile_digits h.digits hrest, if_neg hshort,
    if_neg hzeros', h.value]

theorem readNumber?_too_long (hw : ∀ c ∈ word, isDigitIn base c = true) (hlong : most < word.length)
    (hrest : ∀ c ∈ rest.head?, isDigitIn base c = false) :
    readNumber? base most zerosInFront (word ++ rest) = none := by
  simp only [readNumber?, takeWhile_digits hw hrest, if_pos (Or.inr hlong : word = [] ∨ _)]

theorem readNumber?_no_digit (h : ∀ c ∈ rest.head?, isDigitIn base c = false) :
    readNumber? base most zerosInFront rest = none := by
  have hnone : ([] ++ rest).takeWhile (isDigitIn base) = [] := takeWhile_digits (by simp) h
  rw [List.nil_append] at hnone
  simp only [readNumber?, hnone, true_or, if_true]

end

/-! Four numbers with points between them. -/

namespace Ip4
variable {rest : List Char}

/-- A written number is taken for one of the four if it is below 256. -/
theorem readOctet?_toDigits (n : Nat) (hrest : ∀ c ∈ rest.head?, isDigitIn 10 c = false) :
    readOctet? (Nat.toDigits 10 n ++ rest) = if n < 256 then some (n.toUInt8, rest) else none := by
  by_cases hn : n < 10 ^ 3
  · have hword : Spells 10 3 (Nat.toDigits 10 n) n :=
      spells_toDigits (by decide) (by decide) (by decide) hn
    rw [readOctet?, readNumber?_word hword (.inr (unpadded_toDigits (by decide) (by decide) _)) hrest]
  · have hlong : 3 < (Nat.toDigits 10 n).length :=
      Nat.not_le.mp (mt (Nat.length_toDigits_le_iff (by decide) (by decide)).mp hn)
    have hdigits : ∀ c ∈ Nat.toDigits 10 n, isDigitIn 10 c = true :=
      fun c hc => isDigitIn_of_mem_toDigits (by decide) (by decide) hc
    rw [readOctet?, readNumber?_too_long hdigits hlong hrest, if_neg (by omega)]

theorem readOctet?_whole (n : Nat) :
    readOctet? (Nat.toDigits 10 n) = if n < 256 then some (n.toUInt8, []) else none := by
  have hread : readOctet? (Nat.toDigits 10 n ++ []) = if n < 256 then some (n.toUInt8, []) else none :=
    readOctet?_toDigits n (by simp)
  rwa [List.append_nil] at hread

theorem readOctet?_octet (n : UInt8) (hrest : ∀ c ∈ rest.head?, isDigitIn 10 c = false) :
    readOctet? (octet n ++ rest) = some (n, rest) := by
  rw [octet, readOctet?_toDigits n.toNat hrest, if_pos n.toNat_lt]
  simp

/-- After three numbers it is the fourth that decides. -/
theorem read?_dotted (a b c : UInt8) (text : List Char) :
    read? (octet a ++ '.' :: (octet b ++ '.' :: (octet c ++ '.' :: text))) =
      (readOctet? text).map fun e => (⟨a, b, c, e.1⟩, e.2) := by
  have hpoint (n : UInt8) (text : List Char) :
      readOctet? (octet n ++ '.' :: text) = some (n, '.' :: text) :=
    readOctet?_octet n (by simp; decide)
  have hafter (text : List Char) : afterSeparator? '.' false ('.' :: text) = some text := rfl
  simp only [read?, hpoint, hafter, Option.bind_eq_bind, Option.bind_some]
  cases readOctet? text <;> rfl

theorem text_eq (ip : Ip4) : ip.text =
    octet ip.a ++ '.' :: (octet ip.b ++ '.' :: (octet ip.c ++ '.' :: octet ip.d)) := by
  simp [text]

theorem read?_text (ip : Ip4) (hrest : ∀ c ∈ rest.head?, isDigitIn 10 c = false) :
    read? (ip.text ++ rest) = some (ip, rest) := by
  have htext : ip.text ++ rest = octet ip.a ++ '.' :: (octet ip.b ++ '.' ::
      (octet ip.c ++ '.' :: (octet ip.d ++ rest))) := by simp [text]
  rw [htext, read?_dotted, readOctet?_octet ip.d hrest]
  rfl

theorem read?_whole (ip : Ip4) : read? ip.text = some (ip, []) := by
  have hread : read? (ip.text ++ []) = some (ip, []) := ip.read?_text (by simp)
  rwa [List.append_nil] at hread

theorem readOctet?_rest {text : List Char} {n : UInt8} (h : readOctet? text = some (n, rest)) :
    rest = text.dropWhile (isDigitIn 10) := by
  unfold readOctet? readNumber? at h
  grind

/-- Four numbers are not there unless the first is followed by a point. -/
theorem read?_eq_none {text : List Char} (h : (text.dropWhile (isDigitIn 10)).head? ≠ some '.') :
    read? text = none := by
  rcases hoctet : readOctet? text with _ | ⟨n, rest⟩
  · simp [read?, hoctet]
  · obtain rfl := readOctet?_rest hoctet
    have hpoint : afterSeparator? '.' false (text.dropWhile (isDigitIn 10)) = none := by
      unfold afterSeparator?
      grind
    simp [read?, hoctet, hpoint]

end Ip4

/-! Rows of groups. -/

namespace Ip6
variable {word rest text : List Char} {g : UInt16}

theorem spells_group (g : UInt16) : Spells 16 4 (group g) g.toNat :=
  spells_toDigits (by decide) (by decide) (by decide) g.toNat_lt

/-- Every word of at most four digits spells a group. -/
theorem exists_group (hne : word ≠ []) (hlength : word.length ≤ 4)
    (hdigits : ∀ c ∈ word, isDigitIn 16 c = true) : ∃ g : UInt16, Spells 16 4 word g.toNat := by
  have hlt : ofDigits 16 word < 2 ^ 16 :=
    calc ofDigits 16 word < 16 ^ word.length := ofDigits_lt hdigits
      _ ≤ 16 ^ 4 := Nat.pow_le_pow_right (by decide) hlength
  exact ⟨(ofDigits 16 word).toUInt16, hne, hlength, hdigits, (Nat.mod_eq_of_lt hlt).symm⟩

theorem readGroup?_word (h : Spells 16 4 word g.toNat)
    (hrest : ∀ c ∈ rest.head?, isDigitIn 16 c = false) : readGroup? (word ++ rest) = some (g, rest) := by
  rw [readGroup?, readNumber?_word h (.inl rfl) hrest]
  simp

/-- A word that no point follows is not the beginning of four numbers. -/
theorem embedded_eq_none (hw : ∀ c ∈ word, isDigitIn 16 c = true)
    (hrest : ∀ c ∈ rest.head?, c ≠ '.' ∧ isDigitIn 10 c = false) : Ip4.read? (word ++ rest) = none := by
  refine Ip4.read?_eq_none ?_
  induction word with
  | nil =>
    cases rest with
    | nil => simp
    | cons c tail =>
      obtain ⟨hc, hdigit⟩ := hrest c rfl
      simpa [hdigit] using hc
  | cons c cs ih =>
    obtain ⟨hc, hcs⟩ := List.forall_mem_cons.mp hw
    rw [List.cons_append, List.dropWhile_cons]
    split
    · exact ih hcs
    · simp only [List.head?_cons, ne_eq, Option.some.injEq]
      rintro rfl
      exact absurd hc (by decide)

/-- The words of a row with colons between them, and one in front unless the row is the first. -/
def spelledRow (first : Bool) : List (List Char) → List Char
  | [] => []
  | word :: words => (if first then word else ':' :: word) ++ spelledRow false words

theorem spelledRow_append (first : Bool) (words more : List (List Char)) :
    spelledRow first (words ++ more) = spelledRow first words ++ spelledRow (first && words.isEmpty) more := by
  induction words generalizing first with
  | nil => simp [spelledRow]
  | cons word words ih => simp [spelledRow, ih]

theorem joined_eq (gs : List UInt16) : joined gs = spelledRow true (gs.map group) := by
  match gs with
  | [] => rfl
  | [g] => simp [joined, spelledRow]
  | g :: g' :: gs =>
    rw [joined, joined_eq (g' :: gs)]
    · simp [spelledRow]
    · exact List.cons_ne_nil g' gs

/-- The text does not go on with a group of the row. -/
def Stops (first : Bool) (text : List Char) : Prop :=
  ∀ rest ∈ afterSeparator? ':' first text, Ip4.read? rest = none ∧ readGroup? rest = none

theorem readRow_stops {first : Bool} (h : Stops first text) (room : Nat) :
    readRow first room text = ⟨[], false, text⟩ := by
  cases room with
  | zero => rfl
  | succ room =>
    rw [readRow]
    cases hafter : afterSeparator? ':' first text with
    | none => simp
    | some rest =>
      obtain ⟨hembedded, hgroup⟩ := h rest hafter
      simp [hembedded, hgroup]

theorem stops_nil (first : Bool) : Stops first [] := by
  cases first with
  | false => exact nofun
  | true => exact fun rest hrest => Option.some.inj hrest ▸ ⟨rfl, rfl⟩

/-- A colon ends a row unless it stands in front of a group. -/
theorem stops_colons (first : Bool) (text : List Char) : Stops first (':' :: ':' :: text) := by
  have hcolon (text : List Char) : Ip4.read? (':' :: text) = none ∧ readGroup? (':' :: text) = none := by
    have hdecimal : isDigitIn 10 ':' = false := by decide
    refine ⟨Ip4.read?_eq_none ?_, ?_⟩
    · simp [hdecimal]
    · rw [readGroup?, readNumber?_no_digit (by simp; decide)]
      rfl
  cases first with
  | false => exact fun rest hrest => Option.some.inj hrest ▸ hcolon text
  | true => exact fun rest hrest => Option.some.inj hrest ▸ hcolon (':' :: text)

/-- One word is taken off, if it is not the beginning of an embedded address. -/
theorem readRow_word (first : Bool) (room : Nat) (h : Spells 16 4 word g.toNat)
    (hrest : ∀ c ∈ rest.head?, isDigitIn 16 c = false) (hembedded : Ip4.read? (word ++ rest) = none) :
    readRow first (room + 1) ((if first then word else ':' :: word) ++ rest) =
      let row := readRow false room rest
      ⟨g :: row.groups, row.embedded, row.rest⟩ := by
  have hafter : afterSeparator? ':' first ((if first then word else ':' :: word) ++ rest) =
      some (word ++ rest) := by
    cases first <;> rfl
  rw [readRow, hafter]
  simp [hembedded, readGroup?_word h hrest]

/-- The words of a row are taken off, and what is read after them is added to them. -/
theorem readRow_words {words : List (List Char)} {gs : List UInt16}
    (h : List.Forall₂ (fun word g => Spells 16 4 word g.toNat) words gs) (first : Bool) {room : Nat}
    (hroom : words.length ≤ room) (hrest : words ≠ [] → ∀ c ∈ rest.head?, c = ':') :
    readRow first room (spelledRow first words ++ rest) =
      let row := readRow (first && words.isEmpty) (room - words.length) rest
      ⟨gs ++ row.groups, row.embedded, row.rest⟩ := by
  have hcolon : isDigitIn 16 ':' = false := by decide
  have hcolon' : isDigitIn 10 ':' = false := by decide
  induction h generalizing first room with
  | nil => simp [spelledRow]
  | @cons word g words gs hword _ ih =>
    obtain ⟨room, rfl⟩ : ∃ n, room = n + 1 := ⟨room - 1, by simp at hroom; omega⟩
    -- Whether words follow or not, a colon stands behind the word or nothing.
    have hnext : ∀ c ∈ (spelledRow false words ++ rest).head?, c = ':' := by
      cases words with
      | nil => exact hrest (by simp)
      | cons word' words => simp [spelledRow]
    rw [spelledRow, List.append_assoc, readRow_word first room hword
      (fun c hc => hnext c hc ▸ hcolon)
      (embedded_eq_none hword.digits fun c hc => hnext c hc ▸ ⟨by decide, hcolon'⟩),
      ih false (Nat.le_of_succ_le_succ hroom) fun _ => hrest (by simp)]
    simp

/-- Words of a row that nothing goes on with. -/
theorem readRow_end {words : List (List Char)} {gs : List UInt16}
    (h : List.Forall₂ (fun word g => Spells 16 4 word g.toNat) words gs) (first : Bool) {room : Nat}
    (hroom : words.length ≤ room) (hstop : Stops (first && words.isEmpty) rest)
    (hrest : words ≠ [] → ∀ c ∈ rest.head?, c = ':') :
    readRow first room (spelledRow first words ++ rest) = ⟨gs, false, rest⟩ := by
  rw [readRow_words h first hroom hrest, readRow_stops hstop]
  simp

/-- A row that is the whole text. -/
theorem readRow_all {words : List (List Char)} {gs : List UInt16}
    (h : List.Forall₂ (fun word g => Spells 16 4 word g.toNat) words gs) (first : Bool) {room : Nat}
    (hroom : words.length ≤ room) : readRow first room (spelledRow first words) = ⟨gs, false, []⟩ := by
  have hrow : readRow first room (spelledRow first words ++ []) = ⟨gs, false, []⟩ :=
    readRow_end h first hroom (stops_nil _) (by simp)
  rwa [List.append_nil] at hrow

end Ip6
end Provision
