import Provision.Topology.Server

/-! The names that a server gives to its instances and to what belongs to one of them. Whatever
characters the names of contexts and servers contain, two such names in one context are different: the
last dots belong to the context, and a number is not the beginning of a word. -/
namespace Provision

/-- What stands before a dot and a fixed text is found again if no dot comes after. -/
theorem append_dot_inj {a a' c x x' : List Char} (hx : '.' ∉ x) (hx' : '.' ∉ x')
    (h : a ++ ('.' :: c ++ x) = a' ++ ('.' :: c ++ x')) : a = a' ∧ x = x' := by
  -- A difference of the parts in front would begin with a dot, one dot more than there are.
  have hfront : ∀ {w y y' : List Char}, '.' ∉ y → '.' ∉ y' →
      '.' :: c ++ y = w ++ ('.' :: c ++ y') → w = [] := by
    intro w y y' hy hy' hw
    cases w with
    | nil => rfl
    | cons d w =>
      obtain ⟨rfl, -⟩ := List.cons.inj hw
      have hcount := congrArg (List.count '.') hw
      simp [List.count_append, List.count_eq_zero.mpr hy, List.count_eq_zero.mpr hy'] at hcount
      omega
  rcases List.append_eq_append_iff.mp h with ⟨w, rfl, hw⟩ | ⟨w, rfl, hw⟩
  · obtain rfl := hfront hx hx' hw
    exact ⟨by simp, List.append_cancel_left hw⟩
  · obtain rfl := hfront hx' hx hw
    exact ⟨by simp, (List.append_cancel_left hw).symm⟩

/-- What an instance has, and what the first instance has for all of them. -/
inductive Part
  | server | flavor | volume | attachment | floatingIp | association
  deriving DecidableEq

def Part.suffix : Part → String
  | server => ""
  | flavor => "-flavor"
  | volume => "-volume"
  | attachment => "-volume-attachment"
  | floatingIp => "-fip"
  | association => "-fip-assoc"

/-- Nothing, or a hyphen and then no digit. -/
def Worded (cs : List Char) : Prop := cs = [] ∨ ∃ c rest, cs = '-' :: c :: rest ∧ c.isDigit = false

theorem Part.worded (p : Part) : Worded p.suffix.toList := by
  cases p with
  | server => exact Or.inl rfl
  | flavor => exact Or.inr ⟨'f', "lavor".toList, rfl, rfl⟩
  | volume => exact Or.inr ⟨'v', "olume".toList, rfl, rfl⟩
  | attachment => exact Or.inr ⟨'v', "olume-attachment".toList, rfl, rfl⟩
  | floatingIp => exact Or.inr ⟨'f', "ip".toList, rfl, rfl⟩
  | association => exact Or.inr ⟨'f', "ip-assoc".toList, rfl, rfl⟩

theorem Part.dotless (p : Part) : '.' ∉ p.suffix.toList := by
  cases p <;> decide

theorem Part.suffix_injective {p q : Part} (h : p.suffix = q.suffix) : p = q := by
  cases p <;> cases q <;> first | rfl | exact absurd h (by decide)

namespace Server

/-- The number of an instance as its name shows it. -/
def number (i : Nat) : String := if i = 0 then "" else "-" ++ toString i

theorem instanceName_eq (s : Server) (i : Nat) : s.instanceName i = s.resourceName ++ number i := by
  unfold instanceName number
  split
  · exact (String.append_empty).symm
  · rw [String.append_assoc]

theorem toList_number (i : Nat) :
    (number i).toList = if i = 0 then [] else '-' :: Nat.toDigits 10 i := by
  unfold number
  split
  · rfl
  · simp

theorem isDigit_of_mem_toDigits {i : Nat} {c : Char} (hc : c ∈ Nat.toDigits 10 i) : c.isDigit = true :=
  Nat.isDigit_of_mem_toDigits (by decide) (by decide) hc

theorem dotless_number (i : Nat) : '.' ∉ (number i).toList := by
  rw [toList_number]
  split
  · exact List.not_mem_nil
  · intro h
    rcases List.mem_cons.mp h with h | h
    · cases h
    · exact absurd (isDigit_of_mem_toDigits h) (by decide)

/-- A number is not the beginning of a word. -/
theorem number_inj {i j : Nat} {u v : List Char} (hu : Worded u) (hv : Worded v)
    (h : (number i).toList ++ u = (number j).toList ++ v) : i = j ∧ u = v := by
  have hdigits : ∀ (n : Nat) {w : List Char}, Worded w →
      (Nat.toDigits 10 n ++ w).takeWhile Char.isDigit = Nat.toDigits 10 n := by
    intro n w hw
    rw [List.takeWhile_append_of_pos fun c hc => isDigit_of_mem_toDigits hc]
    rcases hw with rfl | ⟨c, rest, rfl, -⟩ <;> simp
  have hword : ∀ {n : Nat} {w : List Char}, Worded w → ∀ v, w ≠ '-' :: Nat.toDigits 10 n ++ v := by
    rintro n w (rfl | ⟨c, rest, rfl, hc⟩) v hw
    · cases hw
    · obtain ⟨d, ds, hd⟩ := List.exists_cons_of_ne_nil (Nat.toDigits_ne_nil (n := n) (b := 10))
      rw [hd] at hw
      obtain rfl := (List.cons.inj (List.cons.inj hw).2).1
      rw [isDigit_of_mem_toDigits (i := n) (hd ▸ List.mem_cons_self)] at hc
      cases hc
  rw [toList_number, toList_number] at h
  by_cases hi : i = 0 <;> by_cases hj : j = 0
  · exact ⟨hi.trans hj.symm, by simpa [hi, hj] using h⟩
  · rw [if_pos hi, if_neg hj] at h
    exact absurd h (hword hu v)
  · rw [if_neg hi, if_pos hj] at h
    exact absurd h.symm (hword hv u)
  · rw [if_neg hi, if_neg hj] at h
    have htail : Nat.toDigits 10 i ++ u = Nat.toDigits 10 j ++ v := (List.cons.inj h).2
    have hsame : Nat.toDigits 10 i = Nat.toDigits 10 j := by
      rw [← hdigits i hu, htail, hdigits j hv]
    have hvalue := congrArg (fun ds => Nat.ofDigitChars 10 ds 0) hsame
    simp only [Nat.ofDigitChars_ten_toDigits] at hvalue
    rw [hsame] at htail
    exact ⟨hvalue, List.append_cancel_left htail⟩

/-- The name of a resource that is an instance's own. -/
def ownName (s : Server) (i : Nat) (p : Part) : String := s.instanceName i ++ p.suffix

theorem ownName_server (s : Server) (i : Nat) : s.ownName i .server = s.instanceName i :=
  String.append_empty

theorem toList_ownName (s : Server) (i : Nat) (p : Part) :
    (s.ownName i p).toList = s.name.toList ++
      ('.' :: s.context.toList ++ ((number i).toList ++ p.suffix.toList)) := by
  simp [ownName, instanceName_eq, resourceName, dn]

/-- A name tells whose it is: which server's, which instance's, and which part. -/
theorem ownName_inj {s s' : Server} {i i' : Nat} {p p' : Part} (hc : s.context = s'.context)
    (h : s.ownName i p = s'.ownName i' p') : s.name = s'.name ∧ i = i' ∧ p = p' := by
  have hdot : ∀ i (p : Part), '.' ∉ (number i).toList ++ p.suffix.toList := fun i p hm =>
    (List.mem_append.mp hm).elim (dotless_number i) p.dotless
  have hlist := congrArg String.toList h
  rw [toList_ownName, toList_ownName, ← hc] at hlist
  obtain ⟨hname, htail⟩ := append_dot_inj (hdot i p) (hdot i' p') hlist
  obtain ⟨hi, hp⟩ := number_inj p.worded p'.worded htail
  exact ⟨String.toList_inj.mp hname, hi, Part.suffix_injective (String.toList_inj.mp hp)⟩

end Server
end Provision
