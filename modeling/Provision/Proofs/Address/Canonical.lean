import Provision.Proofs.Address.Reading

/-! Addresses are read back from the text that is written for them. The readers are followed word by word:
through a row of eight groups, or through the two rows on both sides of a double colon, which stands for the
zeros that were left out, or to the address of the other family that ends the row. -/
namespace Provision

open Text

/-! The words of an address, with or without a double colon between them. -/

namespace Ip6
variable {words back : List (List Char)} {gs front : List UInt16} {rest : List Char}

/-- A row of eight groups is an address. -/
theorem read?_of_row {text : List Char} (h : readRow true 8 text = ⟨gs, false, rest⟩)
    (hlength : gs.length = 8) : read? text = some (⟨gs, hlength⟩, rest) := by
  unfold read?
  simp [h, hlength]

/-- A shorter row needs a double colon behind it. -/
theorem read?_of_short_row {text : List Char} (h : readRow true 8 text = ⟨gs, false, rest⟩)
    (hlength : gs.length ≠ 8) (hrest : ∀ tail, rest ≠ ':' :: ':' :: tail) : read? text = none := by
  unfold read?
  simp only [h, hlength, dif_neg, not_false_eq_true, Bool.false_eq_true, if_false]

/-- With a double colon the words before and after it are the two ends of the address. -/
theorem read?_apart {frontWords : List (List Char)}
    (hfront : List.Forall₂ (fun word g => Spells 16 4 word g.toNat) frontWords front)
    {text : List Char} {row : Row} (hback : readRow true (8 - (front.length + 1)) text = row)
    (hlength : front.length + row.groups.length ≤ 7) :
    read? (spelledRow true frontWords ++ ':' :: ':' :: text) =
      some (around front row.groups (by omega), row.rest) := by
  have hwords := hfront.length_eq
  have hrow : readRow true 8 (spelledRow true frontWords ++ ':' :: ':' :: text) =
      ⟨front, false, ':' :: ':' :: text⟩ :=
    readRow_end hfront true (by omega) (stops_colons _ text) (by simp)
  have hshort : front.length ≠ 8 := by omega
  unfold read?
  simp only [hrow, hshort, dif_neg, not_false_eq_true, hback]
  simp [show front.length + row.groups.length ≤ 8 by omega]

/-- An embedded address ends a row. -/
theorem readRow_embedded {text : List Char} {ip : Ip4} (first : Bool) (room : Nat)
    (h : Ip4.read? text = some (ip, rest)) :
    readRow first (room + 2) ((if first then text else ':' :: text)) =
      ⟨[ip.high, ip.low], true, rest⟩ := by
  have hafter : afterSeparator? ':' first (if first then text else ':' :: text) = some text := by
    cases first <;> rfl
  rw [readRow, hafter]
  simp [h]

end Ip6

/-! The longest stretch of zeros is one of zeros. -/

namespace Ip6

/-- All groups of the stretch are there, and are zero. -/
def Stretch.Blank (gs : List UInt16) (s : Stretch) : Prop :=
  (gs.drop s.start).take s.size = List.replicate s.size 0

/-- The stretch that ends before position `i`, or none, with the group at that position. -/
def Stretch.extended (s : Stretch) (i : Nat) : Stretch := ⟨if s.size = 0 then i else s.start, s.size + 1⟩

theorem Stretch.Blank.extended {gs rest : List UInt16} {s : Stretch} {i : Nat} (h : s.Blank gs)
    (hrest : gs.drop i = 0 :: rest) (hends : s.size ≠ 0 → s.start + s.size = i) :
    (s.extended i).Blank gs ∧ (s.extended i).start + (s.extended i).size = i + 1 := by
  have hstart : (s.extended i).start + s.size = i := by
    by_cases hsize : s.size = 0
    · simp [Stretch.extended, hsize]
    · simpa [Stretch.extended, hsize] using hends hsize
  have hbefore : (gs.drop (s.extended i).start).take s.size = List.replicate s.size 0 := by
    by_cases hsize : s.size = 0
    · simp [hsize]
    · rw [Stretch.extended, if_neg hsize]
      exact h
  have hgroup : (gs.drop (s.extended i).start)[s.size]? = some 0 := by
    rw [List.getElem?_drop, hstart, ← List.head?_drop, hrest, List.head?_cons]
  refine ⟨?_, congrArg (· + 1) hstart⟩
  change (gs.drop (s.extended i).start).take (s.size + 1) = List.replicate (s.size + 1) 0
  rw [List.take_add_one, hbefore, hgroup, List.replicate_succ']
  rfl

theorem longestZeros_blank {gs : List UInt16} {current best : Stretch} {i : Nat} {rest : List UInt16}
    (hrest : gs.drop i = rest) (hcurrent : current.Blank gs)
    (hends : current.size ≠ 0 → current.start + current.size = i) (hbest : best.Blank gs) :
    (longestZeros i current best rest).Blank gs := by
  induction rest generalizing i current best with
  | nil => exact hbest
  | cons g rest ih =>
    have hnext : gs.drop (i + 1) = rest := by rw [← List.tail_drop, hrest, List.tail_cons]
    rw [longestZeros]
    split
    · next hzero =>
      obtain ⟨hhere, hend⟩ := hcurrent.extended (hzero ▸ hrest) hends
      refine ih hnext hhere (fun _ => hend) ?_
      change Stretch.Blank gs
        (if best.size < (current.extended i).size then current.extended i else best)
      split
      · exact hhere
      · exact hbest
    · exact ih hnext (by simp [Stretch.Blank]) (by simp) hbest

theorem zeros_blank (gs : List UInt16) : (zeros gs).Blank gs :=
  longestZeros_blank (List.drop_zero) (by simp [Stretch.Blank]) (by simp) (by simp [Stretch.Blank])

/-- The groups are those before the gap, zeros for the gap, and those after it. -/
theorem Stretch.Blank.split {gs : List UInt16} {s : Stretch} (h : s.Blank gs) :
    gs = gs.take s.start ++ List.replicate s.size 0 ++ gs.drop (s.start + s.size) := by
  rw [← h, ← List.drop_drop, List.append_assoc, List.take_append_drop, List.take_append_drop]

end Ip6

/-! Written addresses are read back. -/

/-- Two bytes make a group, and a group two bytes. -/
theorem join_bytes (w : UInt16) : (w >>> 8).toUInt8.toUInt16 <<< 8 ||| w.toUInt8.toUInt16 = w := by
  have hw : w.toNat < 65536 := w.toNat_lt
  have hjoin := Nat.two_pow_add_eq_or_of_lt (b := w.toNat % 256) (i := 8) (by omega) (w.toNat / 256)
  have hhigh : w.toNat / 256 % 256 * 256 % 65536 = 2 ^ 8 * (w.toNat / 256) := by omega
  apply UInt16.toNat_inj.mp
  simp only [UInt16.toNat_or, UInt16.toNat_shiftLeft, UInt16.toNat_shiftRight, UInt8.toNat_toUInt16,
    UInt16.toNat_toUInt8, Nat.shiftRight_eq_div_pow, Nat.shiftLeft_eq]
  change w.toNat / 256 % 256 * 256 % 65536 ||| w.toNat % 256 = w.toNat
  rw [hhigh, ← hjoin]
  omega

namespace Ip6

/-- The groups of an address that stands for one of the other family. -/
def mapped (high low : UInt16) : Ip6 := ⟨[0, 0, 0, 0, 0, 0xffff, high, low], rfl⟩

/-- After the six groups that are common to them, an address is told by its embedded one. -/
theorem read?_mapped {text rest : List Char} {ip : Ip4} (h : Ip4.read? text = some (ip, rest)) :
    read? ("::ffff:".toList ++ text) = some (mapped ip.high ip.low, rest) := by
  have hword : List.Forall₂ (fun word g => Spells 16 4 word (UInt16.toNat g)) ["ffff".toList] [0xffff] :=
    .cons (spells_group 0xffff) .nil
  have hback : readRow true 7 ("ffff".toList ++ ':' :: text) =
      ⟨[0xffff, ip.high, ip.low], true, rest⟩ := by
    have hembedded := readRow_embedded false 4 h
    simp only [Bool.false_eq_true, if_false] at hembedded
    have hrow : readRow true 7 (spelledRow true ["ffff".toList] ++ ':' :: text) = _ :=
      readRow_words hword true (by decide) (by simp)
    simpa [spelledRow, hembedded] using hrow
  exact read?_apart .nil hback (by simp)

/-- The words that are written for an address: one row of eight, or two with the double colon between. -/
theorem text_cases (ip : Ip6) :
    (∃ high low, ip = mapped high low ∧
      ip.text = "::ffff:".toList ++ (Ip4.ofGroups high low).text) ∨
    ((∀ high low, ip ≠ mapped high low) ∧
      ((∃ front size back, ip.groups = front ++ List.replicate size 0 ++ back ∧ 1 < size ∧
        ip.text = spelledRow true (front.map group) ++ ':' :: ':' :: spelledRow true (back.map group)) ∨
      ip.text = spelledRow true (ip.groups.map group))) := by
  obtain ⟨groups, hlength⟩ := ip
  unfold text
  split
  · next high low hgroups =>
    cases hgroups
    exact .inl ⟨high, low, rfl, rfl⟩
  · next hother =>
    refine .inr ⟨fun high low he => hother high low (congrArg Ip6.groups he), ?_⟩
    dsimp only
    split
    · next hgap =>
      exact .inl ⟨_, _, _, (zeros_blank groups).split, hgap, by simp [joined_eq]⟩
    · exact .inr (joined_eq groups)

theorem spelled_map (gs : List UInt16) :
    List.Forall₂ (fun word g => Spells 16 4 word g.toNat) (gs.map group) gs :=
  List.forall₂_map_left_iff.mpr (List.forall₂_same.mpr fun g _ => spells_group g)

/-- The address whose groups leave out a gap of zeros. -/
theorem around_gap {ip : Ip6} {front back : List UInt16} {size : Nat}
    (h : ip.groups = front ++ List.replicate size 0 ++ back) (hle : front.length + back.length ≤ 8) :
    around front back hle = ip := by
  obtain ⟨groups, hlength⟩ := ip
  obtain rfl : groups = _ := h
  have hsize : 8 - (front.length + back.length) = size := by
    simp only [List.length_append, List.length_replicate] at hlength
    omega
  simp only [around, hsize]

theorem read?_text (ip : Ip6) : read? ip.text = some (ip, []) := by
  rcases ip.text_cases with ⟨high, low, rfl, htext⟩ | ⟨-, ⟨front, size, back, hgroups, hsize, htext⟩ | htext⟩
  · have hread := (Ip4.ofGroups high low).read?_whole
    rw [htext, read?_mapped hread]
    simp only [Ip4.high, Ip4.low, Ip4.ofGroups, join_bytes]
  · have hlength : front.length + size + back.length = 8 := by
      rw [← ip.length_groups, hgroups]
      simp [Nat.add_assoc]
    have hback : readRow true (8 - (front.length + 1)) (spelledRow true (back.map group)) =
        ⟨back, false, []⟩ := readRow_all (spelled_map back) true (by simp; omega)
    rw [htext, read?_apart (spelled_map front) hback (by simp; omega)]
    simp only [around_gap hgroups]
  · have hrow : readRow true 8 (spelledRow true (ip.groups.map group)) = ⟨ip.groups, false, []⟩ :=
      readRow_all (spelled_map ip.groups) true (by simp [ip.length_groups])
    rw [htext, read?_of_row hrow ip.length_groups]

theorem row_colon (g : UInt16) (gs : List UInt16) (text : List Char) :
    ∃ more, spelledRow true ((g :: gs).map group) ++ ':' :: text = group g ++ ':' :: more := by
  cases gs with
  | nil => exact ⟨text, by simp [spelledRow]⟩
  | cons g' gs => exact ⟨group g' ++ spelledRow false (gs.map group) ++ ':' :: text, by simp [spelledRow]⟩

/-- Before the first colon there is no point. -/
theorem text_colon (ip : Ip6) :
    ∃ word more, ip.text = word ++ ':' :: more ∧ ∀ c ∈ word, isDigitIn 16 c = true := by
  rcases ip.text_cases with ⟨high, low, rfl, htext⟩ | ⟨-, ⟨front, size, back, -, -, htext⟩ | htext⟩
  · exact ⟨[], _, htext, by simp⟩
  · cases front with
    | nil => exact ⟨[], _, htext, by simp⟩
    | cons g front =>
      obtain ⟨more, hmore⟩ := row_colon g front (':' :: spelledRow true (back.map group))
      exact ⟨group g, more, htext.trans hmore, (spells_group g).digits⟩
  · have hlength := ip.length_groups
    rcases hgroups : ip.groups with _ | ⟨g, _ | ⟨g', gs⟩⟩
    · simp [hgroups] at hlength
    · simp [hgroups] at hlength
    · exact ⟨group g, _, by rw [htext, hgroups]; rfl, (spells_group g).digits⟩

/-- No text that begins with that of an address is taken for one of the other family. -/
theorem read?_ip4_text (ip : Ip6) (rest : List Char) : Ip4.read? (ip.text ++ rest) = none := by
  obtain ⟨word, more, htext, hword⟩ := ip.text_colon
  have hcolon : isDigitIn 10 ':' = false := by decide
  rw [htext, List.append_assoc]
  refine embedded_eq_none hword fun c hc => ?_
  obtain rfl : ':' = c := Option.some.inj hc
  exact ⟨by decide, hcolon⟩

end Ip6

namespace IpAddress

theorem read?_v4 {text rest : List Char} {ip : Ip4} (h : Ip4.read? text = some (ip, rest)) :
    read? text = if rest = [] then some (.v4 ip) else none := by
  simp [read?, h]

theorem read?_v6 {text : List Char} (h : Ip4.read? text = none) :
    read? text = (Ip6.read? text).bind fun e => if e.2 = [] then some (.v6 e.1) else none := by
  rw [read?, h]
  cases Ip6.read? text <;> rfl

/-- An address is read back from its text. -/
theorem read?_text (ip : IpAddress) : read? ip.text.toList = some ip := by
  cases ip with
  | v4 ip =>
    rw [text, String.toList_ofList, read?_v4 ip.read?_whole, if_pos rfl]
  | v6 ip =>
    have hother := ip.read?_ip4_text []
    rw [List.append_nil] at hother
    rw [text, String.toList_ofList, read?_v6 hother, ip.read?_text]
    rfl

end IpAddress

end Provision
