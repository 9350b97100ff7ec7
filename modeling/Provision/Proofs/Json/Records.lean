import Provision.Declaration.Writer
import Provision.Json.Fields
import Provision.Proofs.Json.Documents
import Provision.Proofs.OrderedMap
import Provision.Proofs.SortedMap

/-! Records and tables that are read: what is written for a field is read back from it, and a reader looks
at nothing but the parts of a value, which need less room than the value. -/
namespace Provision.Json
variable {α : Type}

/-! The room that a value needs. -/

theorem height_le_heightItems {x : Json} {xs : List Json} (h : x ∈ xs) : x.height ≤ heightItems xs := by
  induction h with
  | head => exact Nat.le_max_left _ _
  | tail _ _ ih => exact Nat.le_trans ih (Nat.le_max_right _ _)

theorem height_le_heightMembers {m : String × Json} {ms : List (String × Json)} (h : m ∈ ms) :
    m.2.height ≤ heightMembers ms := by
  induction h with
  | head => exact Nat.le_max_left _ _
  | tail _ _ ih => exact Nat.le_trans ih (Nat.le_max_right _ _)

theorem height_arr_le {xs : List Json} {n : Nat} (h : ∀ x ∈ xs, x.height ≤ n) :
    (arr xs).height ≤ n + 1 := by
  rw [height]
  refine Nat.succ_le_succ ?_
  induction xs with
  | nil => exact Nat.zero_le n
  | cons x xs ih =>
    obtain ⟨hx, hxs⟩ := List.forall_mem_cons.mp h
    exact Nat.max_le.mpr ⟨hx, ih hxs⟩

theorem height_obj_le {ms : List (String × Json)} {n : Nat} (h : ∀ m ∈ ms, m.2.height ≤ n) :
    (obj ms).height ≤ n + 1 := by
  rw [height]
  refine Nat.succ_le_succ ?_
  induction ms with
  | nil => exact Nat.zero_le n
  | cons m ms ih =>
    obtain ⟨hm, hms⟩ := List.forall_mem_cons.mp h
    exact Nat.max_le.mpr ⟨hm, ih hms⟩

mutual

/-- Beyond what the value needs, room makes no difference. -/
theorem fits_congr : ∀ (x : Json) {room room' : Nat}, x.height ≤ room → x.height ≤ room' →
    x.fits room = x.fits room'
  | arr items, room + 1, room' + 1, h, h' => by
    simp [fits, fitsItems_congr items (Nat.le_of_succ_le_succ h) (Nat.le_of_succ_le_succ h')]
  | obj members, room + 1, room' + 1, h, h' => by
    simp [fits, fitsMembers_congr members (Nat.le_of_succ_le_succ h) (Nat.le_of_succ_le_succ h')]
  | null, _, _, _, _ => rfl
  | bool _, _, _, _, _ => rfl
  | int _, _, _, _, _ => rfl
  | real _, _, _, _, _ => rfl
  | str _, _, _, _, _ => rfl
  | invalid, _, _, _, _ => rfl

theorem fitsItems_congr : ∀ (xs : List Json) {room room' : Nat}, heightItems xs ≤ room →
    heightItems xs ≤ room' → fitsItems room xs = fitsItems room' xs
  | [], _, _, _, _ => rfl
  | x :: xs, _, _, h, h' => by
    rw [fitsItems, fitsItems, fits_congr x (Nat.max_le.mp h).1 (Nat.max_le.mp h').1,
      fitsItems_congr xs (Nat.max_le.mp h).2 (Nat.max_le.mp h').2]

theorem fitsMembers_congr : ∀ (ms : List (String × Json)) {room room' : Nat}, heightMembers ms ≤ room →
    heightMembers ms ≤ room' → fitsMembers room ms = fitsMembers room' ms
  | [], _, _, _, _ => rfl
  | m :: ms, _, _, h, h' => by
    rw [fitsMembers, fitsMembers, fits_congr m.2 (Nat.max_le.mp h).1 (Nat.max_le.mp h').1,
      fitsMembers_congr ms (Nat.max_le.mp h).2 (Nat.max_le.mp h').2]

end

theorem fitsItems_iff {room : Nat} {xs : List Json} :
    fitsItems room xs = true ↔ ∀ x ∈ xs, x.fits room = true := by
  induction xs with
  | nil => simp [fitsItems]
  | cons x xs ih => simp [fitsItems, ih]

theorem fitsMembers_iff {room : Nat} {ms : List (String × Json)} :
    fitsMembers room ms = true ↔ ∀ m ∈ ms, m.2.fits room = true := by
  induction ms with
  | nil => simp [fitsMembers]
  | cons m ms ih => simp [fitsMembers, ih]

/-- A value that stands in text as it is fits wherever it does not nest too deep. -/
theorem Plain.fits {x : Json} (h : x.Plain) {room : Nat} (hroom : x.height ≤ room) :
    x.fits room = true := by
  induction h generalizing room with
  | null | bool | int | str => rfl
  | arr _ ih =>
    cases room with
    | zero => exact absurd hroom (Nat.not_succ_le_zero _)
    | succ room =>
      have hitems := fitsItems_iff.mpr fun x hx =>
        ih x hx (Nat.le_trans (height_le_heightItems hx) (Nat.le_of_succ_le_succ hroom))
      simp [Json.fits, hitems]
  | obj _ _ ih =>
    cases room with
    | zero => exact absurd hroom (Nat.not_succ_le_zero _)
    | succ room =>
      have hmembers := fitsMembers_iff.mpr fun m hm =>
        ih m hm (Nat.le_trans (height_le_heightMembers hm) (Nat.le_of_succ_le_succ hroom))
      simp [Json.fits, hmembers]

/-! The fields of a record. -/

/-- The fields of an object that has them all in their order. -/
theorem fields?_obj {names : List String} {ms : List (String × Json)} (hn : names.Nodup)
    (hkeys : ms.map Prod.fst = names) : (obj ms).fields? names = some (ms.map fun m => some m.2) := by
  subst hkeys
  have honce : ∀ name, (ms.filter fun m => m.1 == name).length ≤ 1 := fun name => by
    rw [← List.countP_eq_length_filter]
    have hcount := List.nodup_iff_count_le_one.mp hn name
    rwa [List.count, List.countP_map] at hcount
  have hfound : ∀ m ∈ ms, (ms.find? fun m' => m'.1 == m.1).map Prod.snd = some m.2 := fun m hm => by
    rw [(find?_iff_of_nodup hn).mpr ⟨hm, rfl⟩]
    rfl
  rw [fields?, if_pos (List.all_eq_true.mpr fun name _ => decide_eq_true (honce name)), List.map_map]
  exact congrArg some (List.map_congr_left hfound)

/-- What is given for a field is a part of the value. -/
theorem height_of_fields? {names : List String} {x v : Json} {fs : List (Option Json)}
    (h : x.fields? names = some fs) (hv : some v ∈ fs) : v.height < x.height := by
  cases x with
  | obj members =>
    rw [fields?] at h
    split at h
    · cases h
      obtain ⟨name, -, hname⟩ := List.mem_map.mp hv
      obtain ⟨m, hm, rfl⟩ := Option.map_eq_some_iff.mp hname
      exact Nat.lt_succ_of_le (height_le_heightMembers (List.mem_of_find?_eq_some hm))
    · cases h
  | arr items =>
    rw [fields?] at h
    split at h
    · cases h
      rcases List.mem_append.mp hv with hv | hv
      · obtain ⟨item, hitem, heq⟩ := List.mem_map.mp hv
        cases heq
        exact Nat.lt_succ_of_le (height_le_heightItems hitem)
      · exact absurd (List.eq_of_mem_replicate hv) (Option.some_ne_none v)
    · cases h
  | null | bool | int | real | str | invalid => cases h

section
variable {read read' : Json → Option α} {write : α → Json}

theorem optional_congr {field : Option Json} (h : ∀ v, field = some v → read v = read' v) :
    optional read field = optional read' field := by
  unfold optional
  split
  · rfl
  · rfl
  · rw [h _ rfl]

theorem withDefault_congr {a : α} {field : Option Json} (h : ∀ v, field = some v → read v = read' v) :
    withDefault a read field = withDefault a read' field := by
  cases field with
  | none => rfl
  | some v => exact h v rfl

theorem mapM_congr {β : Type} {f g : β → Option α} {xs : List β} (h : ∀ x ∈ xs, f x = g x) :
    xs.mapM f = xs.mapM g := by
  induction xs with
  | nil => rfl
  | cons x xs ih =>
    obtain ⟨hx, hxs⟩ := List.forall_mem_cons.mp h
    rw [List.mapM_cons, List.mapM_cons, hx, ih hxs]

theorem entries?_congr {x : Json} (h : ∀ v, v.height < x.height → read v = read' v) :
    entries? read x = entries? read' x := by
  cases x with
  | obj members =>
    refine mapM_congr fun m hm => ?_
    rw [h m.2 (Nat.lt_succ_of_le (height_le_heightMembers hm))]
  | null | bool | int | real | str | arr | invalid => rfl

theorem orderedMap?_congr {x : Json} (h : ∀ v, v.height < x.height → read v = read' v) :
    orderedMap? read x = orderedMap? read' x :=
  congrArg (Option.map OrderedMap.ofList) (entries?_congr h)

/-! What is written is read back. -/

theorem optional_option {a : Option α} (h : ∀ v ∈ a, read (write v) = some v ∧ write v ≠ null) :
    optional read (some (option write a)) = some a := by
  cases a with
  | none => rfl
  | some v =>
    obtain ⟨hv, hnull⟩ := h v rfl
    rw [option, optional, hv]
    · rfl
    · exact hnull

-- These two are stated for any reader: with `uint32?` in its place they would be unfolded to its limit.
theorem required_of_read {x : Json} {a : α} (h : read x = some a) : required read (some x) = some a := h

theorem withDefault_of_read {x : Json} {a b : α} (h : read x = some b) :
    withDefault a read (some x) = some b := h

theorem list?_map {xs : List α} (h : ∀ a ∈ xs, read (write a) = some a) :
    list? read (arr (xs.map write)) = some xs :=
  mapM_map_eq_some h

theorem entries?_members {es : List (String × α)} (h : ∀ e ∈ es, read (write e.2) = some e.2) :
    entries? read (members write es) = some es :=
  mapM_map_eq_some fun e he => by rw [h e he]; rfl

theorem orderedMap?_members {m : OrderedMap α} (h : ∀ e ∈ m.entries, read (write e.2) = some e.2) :
    orderedMap? read (members write m.entries) = some m := by
  rw [orderedMap?, entries?_members h, Option.map_some, OrderedMap.ofList_entries]

theorem sortedMap?_members {m : SortedMap α} (h : ∀ e ∈ m.entries, read (write e.2) = some e.2) :
    sortedMap? read (members write m.entries) = some m := by
  rw [sortedMap?, entries?_members h, Option.map_some, SortedMap.ofList_entries]

theorem uint32?_unsigned (n : UInt32) : uint32? (unsigned n.toNat) = some n := by
  have hn : (n.toNat : Int) < (UInt32.size : Nat) := Int.ofNat_lt.mpr n.toNat_lt
  rw [uint32?, unsigned, below?, if_pos ⟨Int.natCast_nonneg _, hn⟩]
  simp

theorem uint64?_unsigned (n : UInt64) : uint64? (unsigned n.toNat) = some n := by
  have hn : (n.toNat : Int) < (UInt64.size : Nat) := Int.ofNat_lt.mpr n.toNat_lt
  rw [uint64?, unsigned, below?, if_pos ⟨Int.natCast_nonneg _, hn⟩]
  simp

end
end Provision.Json
