import Mathlib.Data.List.TakeWhile
import Provision.Address.Cidr
import Provision.Json.Fields
import Provision.Proofs.Address.Canonical
import Provision.Proofs.Json.Documents

/-! Subnets and their text. Of all the texts that are read as one subnet its own text is the canonical form,
so subnets can be told apart by their texts, in JSON too. -/
namespace Provision

open Text

theorem not_mem_toDigits {c : Char} {base : Nat} (h : 1 < base) (hb : base ≤ 16)
    (hc : isDigitIn base c = false) (n : Nat) : c ∉ Nat.toDigits base n := fun hmem =>
  absurd (isDigitIn_of_mem_toDigits h hb hmem) (by simp [hc])

theorem Ip4.stroke_not_mem_text (ip : Ip4) : '/' ∉ ip.text := by
  have hoctet (n : UInt8) : '/' ∉ octet n := not_mem_toDigits (by decide) (by decide) (by decide) _
  simp [text, hoctet]

theorem Ip6.stroke_not_mem_row (first : Bool) (gs : List UInt16) :
    '/' ∉ spelledRow first (gs.map group) := by
  have hgroup (g : UInt16) : '/' ∉ group g := not_mem_toDigits (by decide) (by decide) (by decide) _
  induction gs generalizing first with
  | nil => simp [spelledRow]
  | cons g gs ih =>
    rw [List.map_cons, spelledRow]
    cases first <;> simp [hgroup, ih]

theorem IpAddress.stroke_not_mem_text (ip : IpAddress) : '/' ∉ ip.text.toList := by
  cases ip with
  | v4 ip => simpa [text] using ip.stroke_not_mem_text
  | v6 ip =>
    rw [text, String.toList_ofList]
    rcases ip.text_cases with ⟨high, low, rfl, htext⟩ | ⟨-, ⟨front, size, back, -, -, htext⟩ | htext⟩
    · simp [htext, Ip4.stroke_not_mem_text]
    · simp [htext, Ip6.stroke_not_mem_row]
    · simp [htext, Ip6.stroke_not_mem_row]

theorem readBelow?_toDigits {limit n : Nat} (h : n < limit) :
    readBelow? limit (Nat.toDigits 10 n) = some n := by
  have hplus : '+' ∉ Nat.toDigits 10 n := not_mem_toDigits (by decide) (by decide) (by decide) n
  have hdigits : (Nat.toDigits 10 n).all (isDigitIn 10) = true :=
    List.all_eq_true.mpr fun c hc => isDigitIn_of_mem_toDigits (by decide) (by decide) hc
  have hvalue : ofDigits 10 (Nat.toDigits 10 n) = n := ofDigits_toDigits (by decide) (by decide) n
  unfold readBelow?
  split
  · next rest hrest => simp [hrest] at hplus
  · simp [hdigits, hvalue, h]

namespace Cidr

/-- A text is a subnet exactly if it is split by its first stroke into an address and a number that is not
above the width of the address. -/
theorem read?_eq_some_iff {s : String} {c : Cidr} : read? s = some c ↔
    ∃ address length, s.toList = address ++ '/' :: length ∧ '/' ∉ address ∧
      IpAddress.read? address = some c.address ∧ readBelow? 256 length = some c.prefixLength := by
  obtain ⟨ip, n, hn⟩ := c
  constructor
  · intro h
    unfold read? at h
    dsimp only at h
    split at h
    · next x length hdrop =>
      obtain rfl : x = '/' := by
        have hhead := List.head?_dropWhile_not (fun c => decide (c ≠ '/')) s.toList
        rw [hdrop] at hhead
        simpa using hhead
      split at h
      · next ip' n' hip hlength =>
        split at h
        · cases h
          refine ⟨_, length, ?_, fun hmem => ?_, hip, hlength⟩
          · rw [← hdrop, List.takeWhile_append_dropWhile]
          · simpa using List.mem_takeWhile_imp hmem
        · cases h
      · cases h
    · cases h
  · rintro ⟨address, length, hs, hstroke, hip, hlength⟩
    have hall : ∀ c ∈ address, decide (c ≠ '/') = true := fun c hc =>
      decide_eq_true fun he => hstroke (he ▸ hc)
    have htake : s.toList.takeWhile (fun c => decide (c ≠ '/')) = address := by
      rw [hs, List.takeWhile_append_of_pos hall]
      simp
    have hdrop : s.toList.dropWhile (fun c => decide (c ≠ '/')) = '/' :: length := by
      rw [hs, List.dropWhile_append_of_pos hall]
      simp
    simp only [read?, htake, hdrop, hip, hlength, dif_pos hn]

theorem read?_text (c : Cidr) : read? c.text = some c := by
  have hlimit : c.prefixLength < 256 := by
    have hle := c.prefixLength_le
    have hwidth : c.address.width ≤ 128 := by cases c.address <;> simp [IpAddress.width]
    omega
  refine read?_eq_some_iff.mpr ⟨c.address.text.toList, Nat.toDigits 10 c.prefixLength, ?_,
    c.address.stroke_not_mem_text, c.address.read?_text, readBelow?_toDigits hlimit⟩
  simp [text]

/-- The longest prefix of a subnet of this family. -/
theorem prefixLength_le_family (c : Cidr) : c.prefixLength ≤ if c.isV6 then 128 else 32 := by
  obtain ⟨ip, n, hn⟩ := c
  cases ip <;> exact hn

theorem text_injective : Function.Injective text := fun c c' h =>
  Option.some.inj (by rw [← read?_text c, h, read?_text])

theorem ofJson?_toJson (c : Cidr) : ofJson? c.toJson = some c := c.read?_text

theorem readText_toJson (c : Cidr) :
    Json.readText (fun _ => ofJson?) (Json.compact c.toJson) = some c := by
  have hparse : Json.parse? (Json.compact c.toJson) = some c.toJson := Json.parse?_compact (.str c.text)
  rw [Json.readText, hparse]
  exact c.ofJson?_toJson

/-- A text is accepted for an address and the length of a prefix that is not too long for the family of the
address. The text of what it is read as is read as the same, so equal subnets are those with equal texts,
whatever they were read from; and JSON gives back what it was given. -/
theorem text_canonical :
    (∀ s c, read? s = some c ↔ ∃ address length, s.toList = address ++ '/' :: length ∧ '/' ∉ address ∧
      IpAddress.read? address = some c.address ∧ readBelow? 256 length = some c.prefixLength) ∧
    (∀ s c, read? s = some c →
      (c.prefixLength ≤ if c.isV6 then 128 else 32) ∧ read? c.text = some c) ∧
    (∀ s s' c c', read? s = some c → read? s' = some c' → (c = c' ↔ c.text = c'.text)) ∧
    ∀ c, ofJson? c.toJson = some c ∧ Json.readText (fun _ => ofJson?) (Json.compact c.toJson) = some c :=
  ⟨fun _ _ => read?_eq_some_iff, fun _ c _ => ⟨c.prefixLength_le_family, c.read?_text⟩,
    fun _ _ _ _ _ _ => text_injective.eq_iff.symm, fun c => ⟨c.ofJson?_toJson, c.readText_toJson⟩⟩

/-- Two spellings of one subnet: with zeros in front, capital letters and the other gap left out, and with a
sign. -/
theorem text_canonical_sample : ∃ c c', read? "2001:0DB8:0:0:1::FFFF/064" = some c ∧
    read? "2001:db8::1:0:0:ffff/+64" = some c' ∧
    ((c.prefixLength ≤ if c.isV6 then 128 else 32) ∧ read? c.text = some c) ∧
    (c = c' ↔ c.text = c'.text) ∧ c = c' := by
  obtain ⟨c, hc⟩ := Option.isSome_iff_exists.mp
    (by decide +kernel : (read? "2001:0DB8:0:0:1::FFFF/064").isSome = true)
  have hsame : read? "2001:0DB8:0:0:1::FFFF/064" = read? "2001:db8::1:0:0:ffff/+64" := by decide +kernel
  have hc' := hsame.symm.trans hc
  exact ⟨c, c, hc, hc', text_canonical.2.1 _ c hc, text_canonical.2.2.1 _ _ c c hc hc', rfl⟩

end Cidr
end Provision
