import Provision.Proofs.Address.Canonical
import Provision.Stack.Simulated

/-! The gateways that the simulation makes up. In the first family they are addresses always; in the second a
digit is put after the text of the subnet, which has to have room for it. -/
namespace Provision

open Text

namespace IpAddress

/-- One digit more makes the text of the address the text of an address: an embedded address has its last
number below 26 and not zero, any other address its last group below `0x1000`. -/
def HasGateway : IpAddress → Prop
  | v4 _ => True
  | v6 ip =>
    match ip.groups with
    | [0, 0, 0, 0, 0, 0xffff, _, low] => 0 < low.toUInt8.toNat ∧ low.toUInt8.toNat ≤ 25
    | gs => ∀ g ∈ gs.getLast?, g.toNat < 0x1000

instance (ip : IpAddress) : Decidable ip.HasGateway := by
  unfold HasGateway
  split
  · exact instDecidableTrue
  · split
    · exact instDecidableAnd
    -- the last group is looked at, not all groups that there are
    · exact Option.decidableForallMem _

end IpAddress

namespace Ip6
variable {gs : List UInt16} {g : UInt16}

/-- The last group with one digit more. -/
theorem spells_more (hg : g.toNat < 0x1000) :
    Spells 16 4 (group g ++ ['1']) (g.toNat * 16 + 1).toUInt16.toNat := by
  have hword : Spells 16 3 (group g) g.toNat := spells_toDigits (by decide) (by decide) (by decide) hg
  have hvalue : (g.toNat * 16 + 1).toUInt16.toNat = g.toNat * 16 + 1 := by
    simp
    omega
  rw [hvalue]
  exact hword.snoc (by decide)

/-- A last group of four digits has no room for a fifth. -/
theorem stops_more (first : Bool) (hg : ¬ g.toNat < 0x1000) :
    Stops first (spelledRow first [group g ++ ['1']]) := by
  have hdigits : ∀ c ∈ group g ++ ['1'], isDigitIn 16 c = true := by
    simp only [List.forall_mem_append, List.forall_mem_singleton]
    exact ⟨(spells_group g).digits, by decide⟩
  have hlong : 4 < (group g ++ ['1']).length := by
    have hlength := mt (Nat.length_toDigits_le_iff (b := 16) (k := 3) (by decide) (by decide)).mp hg
    rw [List.length_append, List.length_singleton, group]
    omega
  have hnone : Ip4.read? (group g ++ ['1']) = none ∧ readGroup? (group g ++ ['1']) = none := by
    refine ⟨?_, ?_⟩
    · have hembedded : Ip4.read? (group g ++ ['1'] ++ []) = none := embedded_eq_none hdigits (by simp)
      rwa [List.append_nil] at hembedded
    · have hnumber : readNumber? 16 4 true (group g ++ ['1'] ++ []) = none :=
        readNumber?_too_long hdigits hlong (by simp)
      rw [List.append_nil] at hnumber
      rw [readGroup?, hnumber]
      rfl
  have hafter : afterSeparator? ':' first (spelledRow first [group g ++ ['1']]) =
      some (group g ++ ['1']) := by
    cases first <;> simp [spelledRow, afterSeparator?]
  intro rest hrest
  rw [hafter] at hrest
  exact Option.some.inj hrest ▸ hnone

theorem spelled_ne_colons (first : Bool) (g : UInt16) (tail : List Char) :
    spelledRow first [group g ++ ['1']] ≠ ':' :: ':' :: tail := by
  obtain ⟨c, cs, hgroup⟩ := List.exists_cons_of_ne_nil (spells_group g).ne_nil
  have hc : c ≠ ':' := by
    rintro rfl
    exact absurd ((spells_group g).digits ':' (hgroup ▸ List.mem_cons_self)) (by decide)
  cases first <;> simp [spelledRow, hgroup, hc]

/-- A row whose last group has one digit more is read to its end, or up to that group. -/
theorem readRow_more (gs : List UInt16) (g : UInt16) (first : Bool) {room : Nat} (hroom : gs.length < room) :
    readRow first room (spelledRow first ((gs ++ [g]).map group) ++ ['1']) =
      if g.toNat < 0x1000 then ⟨gs ++ [(g.toNat * 16 + 1).toUInt16], false, []⟩
      else ⟨gs, false, spelledRow (first && gs.isEmpty) [group g ++ ['1']]⟩ := by
  have htext : spelledRow first ((gs ++ [g]).map group) ++ ['1'] =
      spelledRow first (gs.map group ++ [group g ++ ['1']]) := by
    simp only [List.map_append, List.map_singleton, spelledRow_append, spelledRow, List.append_assoc]
    split <;> simp
  rw [htext]
  split
  · next hg =>
    have hwords := List.rel_append (spelled_map gs) (.cons (spells_more hg) .nil)
    exact readRow_all hwords first (by simp; omega)
  · next hg =>
    rw [spelledRow_append]
    have hstop := stops_more (first && gs.isEmpty) hg
    simp only [List.isEmpty_map]
    refine readRow_end (spelled_map gs) first (by simp; omega) (by simpa using hstop) fun hne => ?_
    have hgs : gs ≠ [] := by simpa using hne
    simp [spelledRow, hgs]

end Ip6

/-! Embedded addresses. -/

/-- Zero cannot have a digit more, nor can a number above 25. -/
theorem Ip4.readOctet?_more (n : UInt8) : readOctet? (octet n ++ ['1']) =
    if 0 < n.toNat ∧ n.toNat ≤ 25 then some ((10 * n.toNat + 1).toUInt8, []) else none := by
  by_cases hn : 0 < n.toNat
  · have htext : octet n ++ ['1'] = Nat.toDigits 10 (10 * n.toNat + 1) :=
      Nat.toDigits_append_toDigits (b := 10) (d := 1) (by decide) hn (by decide)
    have hread := readOctet?_whole (10 * n.toNat + 1)
    rw [← htext] at hread
    rw [hread]
    simp only [hn, true_and]
    congr 1
    exact propext (by omega)
  · obtain rfl : n = 0 := UInt8.toNat_inj.mp (by simpa using hn)
    decide

namespace Ip6

/-- Where four numbers are expected and are not there, a row ends before the point. -/
theorem readRow_dotted {n : UInt8} {text : List Char} (h : Ip4.read? (Ip4.octet n ++ '.' :: text) = none)
    (first : Bool) (room : Nat) : ∃ g : UInt16,
      readRow first (room + 1) ((if first then Ip4.octet n else ':' :: Ip4.octet n) ++ '.' :: text) =
        ⟨[g], false, '.' :: text⟩ := by
  have hlength : (Ip4.octet n).length ≤ 3 :=
    (Nat.length_toDigits_le_iff (by decide) (by decide)).mpr (Nat.lt_trans n.toNat_lt (by decide))
  have hdigits : ∀ c ∈ Ip4.octet n, isDigitIn 16 c = true := fun c hc =>
    isDigitIn_mono (by decide) (isDigitIn_of_mem_toDigits (by decide) (by decide) hc)
  obtain ⟨g, hg⟩ : ∃ g : UInt16, Spells 16 4 (Ip4.octet n) g.toNat :=
    exists_group Nat.toDigits_ne_nil (Nat.le_succ_of_le hlength) hdigits
  have hpoint : readRow false room ('.' :: text) = ⟨[], false, '.' :: text⟩ :=
    readRow_stops (fun rest hrest => by cases hrest) room
  refine ⟨g, ?_⟩
  rw [readRow_word first room hg (by simp; decide) h, hpoint]

theorem read?_mapped_dotted {n : UInt8} {text : List Char}
    (h : Ip4.read? (Ip4.octet n ++ '.' :: text) = none) :
    ∃ ip, read? ("::ffff:".toList ++ (Ip4.octet n ++ '.' :: text)) = some (ip, '.' :: text) := by
  obtain ⟨g, hrow⟩ := readRow_dotted h false 5
  have hword : List.Forall₂ (fun word g => Spells 16 4 word (UInt16.toNat g)) ["ffff".toList] [0xffff] :=
    .cons (spells_group 0xffff) .nil
  have hback : readRow true 7 ("ffff".toList ++ ':' :: (Ip4.octet n ++ '.' :: text)) =
      ⟨[0xffff, g], false, '.' :: text⟩ := by
    have hwords : readRow true 7
        (spelledRow true ["ffff".toList] ++ ':' :: (Ip4.octet n ++ '.' :: text)) = _ :=
      readRow_words hword true (by decide) (by simp)
    simp only [Bool.false_eq_true, if_false, List.cons_append] at hrow
    simpa [spelledRow, hrow] using hwords
  exact ⟨_, read?_apart .nil hback (by simp)⟩

/-- Four numbers are no address of the second family. -/
theorem read?_dotted {n : UInt8} {text : List Char} (h : Ip4.read? (Ip4.octet n ++ '.' :: text) = none) :
    read? (Ip4.octet n ++ '.' :: text) = none := by
  obtain ⟨g, hrow⟩ := readRow_dotted h true 7
  exact read?_of_short_row hrow (by simp) (by simp)

end Ip6

namespace IpAddress

/-- Three numbers and a fourth are an address if the fourth is below 256. -/
theorem read?_numbered_iff (a b c : UInt8) (n : Nat) :
    (∃ ip, read? (Ip4.octet a ++ '.' :: (Ip4.octet b ++ '.' :: (Ip4.octet c ++ '.' ::
      Nat.toDigits 10 n))) = some ip) ↔ n < 256 := by
  have hread := Ip4.read?_dotted a b c (Nat.toDigits 10 n)
  rw [Ip4.readOctet?_whole] at hread
  by_cases hn : n < 256
  · rw [if_pos hn] at hread
    exact iff_of_true ⟨_, read?_v4 hread⟩ hn
  · rw [if_neg hn] at hread
    refine iff_of_false (fun ⟨ip, hip⟩ => ?_) hn
    rw [read?_v6 hread, Ip6.read?_dotted hread] at hip
    cases hip

end IpAddress

/-! The gateway of a subnet of the second family. -/

namespace IpAddress
variable {ip : Ip6}

theorem hasGateway_mapped (high low : UInt16) : (v6 (Ip6.mapped high low)).HasGateway ↔
    0 < low.toUInt8.toNat ∧ low.toUInt8.toNat ≤ 25 := Iff.rfl

theorem hasGateway_iff (h : ∀ high low, ip ≠ Ip6.mapped high low) :
    (v6 ip).HasGateway ↔ ∀ g ∈ ip.groups.getLast?, g.toNat < 0x1000 := by
  obtain ⟨groups, hlength⟩ := ip
  unfold HasGateway
  dsimp only
  split
  · next high low => exact absurd rfl (h high low)
  · rfl

/-- With one digit more the text of an address is read as an address of the same family, if at all. -/
theorem read?_more (text : List Char) (h : Ip4.read? text = none) (ip' : IpAddress)
    (hread : read? text = some ip') : ip'.isV6 = true := by
  rw [read?_v6 h] at hread
  obtain ⟨e, -, he⟩ := Option.bind_eq_some_iff.mp hread
  split at he
  · cases he
    rfl
  · cases he

/-- An embedded address is read on with its last number. -/
theorem mapped_more (high low : UInt16) :
    (∃ e, Ip6.read? ("::ffff:".toList ++ ((Ip4.ofGroups high low).text ++ ['1'])) = some e ∧ e.2 = []) ↔
      0 < low.toUInt8.toNat ∧ low.toUInt8.toNat ≤ 25 := by
  let ip := Ip4.ofGroups high low
  have htext : ip.text ++ ['1'] = Ip4.octet ip.a ++ '.' ::
      (Ip4.octet ip.b ++ '.' :: (Ip4.octet ip.c ++ '.' :: (Ip4.octet ip.d ++ ['1']))) := by
    simp [Ip4.text_eq]
  have hread := Ip4.read?_dotted ip.a ip.b ip.c (Ip4.octet ip.d ++ ['1'])
  rw [Ip4.readOctet?_more] at hread
  change (∃ e, Ip6.read? ("::ffff:".toList ++ (ip.text ++ ['1'])) = some e ∧ e.2 = []) ↔
    0 < ip.d.toNat ∧ ip.d.toNat ≤ 25
  rw [htext]
  by_cases hd : 0 < ip.d.toNat ∧ ip.d.toNat ≤ 25
  · rw [if_pos hd] at hread
    exact iff_of_true ⟨_, Ip6.read?_mapped hread, rfl⟩ hd
  · rw [if_neg hd] at hread
    obtain ⟨ip', hip'⟩ := Ip6.read?_mapped_dotted hread
    refine iff_of_false (fun ⟨e, he, hrest⟩ => ?_) hd
    rw [hip'] at he
    obtain rfl := Option.some.inj he
    cases hrest

/-- The second of two rows is read on with its last group. -/
theorem apart_more {front back : List UInt16} {size : Nat} (hsize : 1 < size)
    (hlength : front.length + size + back.length = 8) :
    (∃ e, Ip6.read? (Ip6.spelledRow true (front.map Ip6.group) ++ ':' :: ':' ::
      (Ip6.spelledRow true (back.map Ip6.group) ++ ['1'])) = some e ∧ e.2 = []) ↔
      ∀ g ∈ back.getLast?, g.toNat < 0x1000 := by
  rcases List.eq_nil_or_concat' back with rfl | ⟨gs, g, rfl⟩
  · have hword : List.Forall₂ (fun word g => Spells 16 4 word (UInt16.toNat g)) [['1']] [1] :=
      .cons (Ip6.spells_group 1) .nil
    have hrow : Ip6.readRow true (8 - (front.length + 1)) (Ip6.spelledRow true [['1']]) = ⟨[1], false, []⟩ :=
      Ip6.readRow_all hword true (by simp at hlength ⊢; omega)
    refine iff_of_true ⟨_, Ip6.read?_apart (Ip6.spelled_map front) hrow ?_, rfl⟩ (by simp)
    simp at hlength ⊢
    omega
  · have hroom : gs.length < 8 - (front.length + 1) := by
      simp at hlength
      omega
    have hrow := Ip6.readRow_more gs g true hroom
    by_cases hg : g.toNat < 0x1000
    · rw [if_pos hg] at hrow
      refine iff_of_true ⟨_, Ip6.read?_apart (Ip6.spelled_map front) hrow ?_, rfl⟩ (by simpa using hg)
      simp at hlength ⊢
      omega
    · rw [if_neg hg] at hrow
      have hread := Ip6.read?_apart (Ip6.spelled_map front) hrow (by simp at hlength ⊢; omega)
      refine iff_of_false (fun ⟨e, he, hrest⟩ => ?_) (by simpa using hg)
      rw [hread] at he
      obtain rfl := Option.some.inj he
      cases gs <;> simp [Ip6.spelledRow] at hrest

/-- A row of eight is read on with its last group. -/
theorem full_more {gs : List UInt16} (hlength : gs.length = 8) :
    (∃ e, Ip6.read? (Ip6.spelledRow true (gs.map Ip6.group) ++ ['1']) = some e ∧ e.2 = []) ↔
      ∀ g ∈ gs.getLast?, g.toNat < 0x1000 := by
  rcases List.eq_nil_or_concat' gs with rfl | ⟨gs, g, rfl⟩
  · cases hlength
  · have hgs : gs.length = 7 := by simpa using hlength
    have hrow := Ip6.readRow_more gs g true (show gs.length < 8 by omega)
    by_cases hg : g.toNat < 0x1000
    · rw [if_pos hg] at hrow
      exact iff_of_true ⟨_, Ip6.read?_of_row hrow (by simp [hgs]), rfl⟩ (by simpa using hg)
    · rw [if_neg hg] at hrow
      have hread := Ip6.read?_of_short_row hrow (by omega) (Ip6.spelled_ne_colons _ g)
      refine iff_of_false (fun ⟨e, he, _⟩ => ?_) (by simpa using hg)
      rw [hread] at he
      cases he

theorem v6_more_iff (ip : Ip6) : (∃ ip', read? (ip.text ++ ['1']) = some ip') ↔ (v6 ip).HasGateway := by
  have hread : (∃ ip', read? (ip.text ++ ['1']) = some ip') ↔
      ∃ e, Ip6.read? (ip.text ++ ['1']) = some e ∧ e.2 = [] := by
    rw [read?_v6 (ip.read?_ip4_text ['1'])]
    cases Ip6.read? (ip.text ++ ['1']) with
    | none => simp
    | some e => simp
  rw [hread]
  rcases ip.text_cases with ⟨high, low, rfl, htext⟩ | ⟨hother, ⟨front, size, back, hgroups, hsize, htext⟩ | htext⟩
  · rw [htext, List.append_assoc, mapped_more, hasGateway_mapped]
  · have hlength : front.length + size + back.length = 8 := by
      rw [← ip.length_groups, hgroups]
      simp [Nat.add_assoc]
    rw [htext, List.append_assoc, List.cons_append, List.cons_append, apart_more hsize hlength,
      hasGateway_iff hother, hgroups]
    -- With nothing after the gap the last group is one of its zeros.
    rcases List.eq_nil_or_concat' back with rfl | ⟨gs, g, rfl⟩
    · have hzero : (front ++ List.replicate size (0 : UInt16) ++ []).getLast? = some 0 := by
        simp [List.getLast?_append, List.getLast?_replicate, show size ≠ 0 by omega]
      rw [hzero]
      simp
    · simp
  · rw [htext, full_more ip.length_groups, hasGateway_iff hother]

/-- What is made up for the gateway is an address exactly if the subnet's own address leaves room for it, and
then it is one of the same family. -/
theorem gateway_iff (ip : IpAddress) :
    (∃ gateway, read? (gatewayText ip).toList = some gateway) ↔ ip.HasGateway := by
  cases ip with
  | v4 ip => exact iff_of_true ⟨_, read?_text _⟩ trivial
  | v6 ip =>
    have htext : (gatewayText (v6 ip)).toList = ip.text ++ ['1'] := by simp [gatewayText, text]
    rw [htext, v6_more_iff]

theorem gateway_family {ip gateway : IpAddress} (h : read? (gatewayText ip).toList = some gateway) :
    gateway.isV6 = ip.isV6 := by
  cases ip with
  | v4 ip =>
    rw [gatewayText, read?_text] at h
    obtain rfl := Option.some.inj h
    rfl
  | v6 ip =>
    have htext : (gatewayText (v6 ip)).toList = ip.text ++ ['1'] := by simp [gatewayText, text]
    rw [htext] at h
    exact read?_more _ (ip.read?_ip4_text ['1']) gateway h

end IpAddress
end Provision
