import Mathlib.Data.List.Induction
import Mathlib.Data.List.Nodup
import Provision.SortedMap

/-! Looking things up in sorted maps: what a map answers after an insertion, and what a map answers that
was made from a list, where of two pairs with one key the later one counts. -/
namespace Provision

/-- Among elements with different names a name tells the element. -/
theorem find?_iff_of_nodup {α : Type} {f : α → String} {xs : List α} (h : (xs.map f).Nodup)
    {name : String} {x : α} : xs.find? (fun x => f x == name) = some x ↔ x ∈ xs ∧ f x = name := by
  constructor
  · intro hx
    exact ⟨List.mem_of_find?_eq_some hx, by simpa using List.find?_some hx⟩
  · rintro ⟨hx, rfl⟩
    have hsome : (xs.find? fun y => f y == f x).isSome = true := List.find?_isSome.mpr ⟨x, hx, by simp⟩
    obtain ⟨y, hy⟩ := Option.isSome_iff_exists.mp hsome
    have hname : f y = f x := by simpa using List.find?_some hy
    rw [hy, List.inj_on_of_nodup_map h (List.mem_of_find?_eq_some hy) hx hname]

namespace SortedMap
variable {α : Type}

theorem mem_keys_put (key x : String) (value : α) (es : List (String × α)) :
    x ∈ (put key value es).map Prod.fst ↔ x = key ∨ x ∈ es.map Prod.fst := by
  induction es with
  | nil => simp [put]
  | cons e es ih =>
    obtain ⟨k, v⟩ := e
    simp only [put]
    split
    · next hk => simp [hk]
    · split
      · simp
      · simp only [List.map_cons, List.mem_cons, ih]
        exact or_left_comm

theorem contains_iff (m : SortedMap α) (key : String) : m.contains key = true ↔ key ∈ m.keys := by
  simp [contains, keys]

theorem contains_insert (m : SortedMap α) (key x : String) (value : α) :
    (m.insert key value).contains x = true ↔ x = key ∨ m.contains x = true := by
  rw [contains_iff, contains_iff]
  exact mem_keys_put key x value m.entries

theorem keys_subset_insert (m : SortedMap α) (key : String) (value : α) :
    m.keys ⊆ (m.insert key value).keys := by
  intro x hx
  rw [← contains_iff] at hx ⊢
  exact (m.contains_insert key x value).mpr (Or.inr hx)

theorem put_put (key : String) (value : α) (es : List (String × α)) :
    put key value (put key value es) = put key value es := by
  induction es with
  | nil => simp [put]
  | cons e es ih =>
    obtain ⟨k, v⟩ := e
    by_cases hk : k = key
    · simp [put, hk]
    · by_cases hp : CodePoints.precedes key.toList k.toList = true
      · simp [put, hk, hp]
      · simp [put, hk, hp, ih]

theorem insert_insert (m : SortedMap α) (key : String) (value : α) :
    (m.insert key value).insert key value = m.insert key value :=
  ext (put_put key value m.entries)

/-! Keys and lookups. -/

theorem keys_nodup (m : SortedMap α) : m.keys.Nodup := by
  refine List.pairwise_map.mpr (m.sorted.imp fun {a b} hab he => ?_)
  rw [he, CodePoints.precedes_irrefl] at hab
  cases hab

theorem find?_isSome (m : SortedMap α) (key : String) : (m.find? key).isSome = true ↔ key ∈ m.keys := by
  simp [find?, keys]

theorem find?_eq_some {m : SortedMap α} {key : String} {value : α} :
    m.find? key = some value ↔ (key, value) ∈ m.entries := by
  have hfound : ∀ e, (m.entries.find? fun e => e.1 == key) = some e ↔ e ∈ m.entries ∧ e.1 = key :=
    fun e => find?_iff_of_nodup m.keys_nodup
  constructor
  · intro h
    obtain ⟨e, he, rfl⟩ := Option.map_eq_some_iff.mp h
    obtain ⟨hmem, rfl⟩ := (hfound e).mp he
    exact hmem
  · intro h
    rw [find?, (hfound (key, value)).mpr ⟨h, rfl⟩]
    rfl

theorem find?_put (key x : String) (value : α) (es : List (String × α)) :
    ((put key value es).find? fun e => e.1 == x).map Prod.snd =
      if x = key then some value else (es.find? fun e => e.1 == x).map Prod.snd := by
  induction es with
  | nil =>
    by_cases hx : x = key
    · simp [put, hx]
    · simp [put, hx, Ne.symm hx]
  | cons e es ih =>
    obtain ⟨k, v⟩ := e
    by_cases hk : k = key
    · subst hk
      by_cases hx : x = k
      · simp [put, hx]
      · simp [put, hx, Ne.symm hx]
    · by_cases hp : CodePoints.precedes key.toList k.toList = true
      · by_cases hx : x = key
        · simp [put, hk, hp, hx]
        · simp [put, hk, hp, hx, Ne.symm hx]
      · by_cases hkx : k = x
        · subst hkx
          simp [put, hk, hp]
        · simp [put, hk, hp, hkx, ih]

@[simp] theorem find?_insert (m : SortedMap α) (key x : String) (value : α) :
    (m.insert key value).find? x = if x = key then some value else m.find? x :=
  find?_put key x value m.entries

@[simp] theorem find?_insertAll (m : SortedMap α) (keys : List String) (value : α) (x : String) :
    (m.insertAll keys value).find? x = if x ∈ keys then some value else m.find? x := by
  induction keys generalizing m with
  | nil => simp [insertAll]
  | cons key keys ih =>
    change ((m.insert key value).insertAll keys value).find? x = _
    rw [ih, find?_insert]
    by_cases hkey : x = key <;> by_cases hrest : x ∈ keys <;> simp [hkey, hrest]

theorem ofList_append_singleton (es : List (String × α)) (e : String × α) :
    ofList (es ++ [e]) = (ofList es).insert e.1 e.2 := by
  simp [ofList]

/-- Of the pairs with one key the last one is found. -/
theorem find?_ofList (es : List (String × α)) (key : String) :
    (ofList es).find? key = (es.reverse.find? fun e => e.1 == key).map Prod.snd := by
  induction es using List.reverseRecOn with
  | nil => rfl
  | append_singleton es e ih =>
    rw [ofList_append_singleton, find?_insert, ih, List.reverse_append]
    by_cases hk : key = e.1
    · simp [hk]
    · simp [hk, Ne.symm hk]

theorem mem_of_mem_ofList {es : List (String × α)} {e : String × α} (h : e ∈ (ofList es).entries) :
    e ∈ es := by
  have hfound := find?_eq_some.mpr h
  rw [find?_ofList] at hfound
  obtain ⟨e', he', hvalue⟩ := Option.map_eq_some_iff.mp hfound
  have hkey : e'.1 = e.1 := by simpa using List.find?_some he'
  exact Prod.ext hkey hvalue ▸ List.mem_reverse.mp (List.mem_of_find?_eq_some he')

theorem mem_keys_ofList (es : List (String × α)) (key : String) :
    key ∈ (ofList es).keys ↔ key ∈ es.map Prod.fst := by
  rw [← find?_isSome, find?_ofList]
  simp

/-- With different keys every pair is found. -/
theorem find?_ofList_of_nodup {es : List (String × α)} (h : (es.map Prod.fst).Nodup)
    {e : String × α} (he : e ∈ es) : (ofList es).find? e.1 = some e.2 := by
  have hreverse : (es.reverse.map Prod.fst).Nodup := by
    rwa [List.map_reverse, List.nodup_reverse]
  rw [find?_ofList, (find?_iff_of_nodup hreverse).mpr ⟨List.mem_reverse.mpr he, rfl⟩]
  rfl

theorem put_of_last {key : String} {es : List (String × α)}
    (h : ∀ e ∈ es, CodePoints.precedes e.1.toList key.toList = true) (value : α) :
    put key value es = es ++ [(key, value)] := by
  induction es with
  | nil => rfl
  | cons e es ih =>
    obtain ⟨he, hes⟩ := List.forall_mem_cons.mp h
    have hne : e.1 ≠ key := fun heq => by
      rw [heq, CodePoints.precedes_irrefl] at he
      cases he
    have hnot : ¬ CodePoints.precedes key.toList e.1.toList = true := fun hback => by
      have hself := CodePoints.precedes_trans hback he
      rw [CodePoints.precedes_irrefl] at hself
      cases hself
    rw [put, if_neg hne, if_neg hnot, ih hes]
    rfl

/-- Pairs whose keys stand in order are kept. -/
theorem entries_ofList {es : List (String × α)}
    (h : es.Pairwise fun a b => CodePoints.precedes a.1.toList b.1.toList = true) :
    (ofList es).entries = es := by
  induction es using List.reverseRecOn with
  | nil => rfl
  | append_singleton es e ih =>
    obtain ⟨hes, -, hlast⟩ := List.pairwise_append.mp h
    rw [ofList_append_singleton, entries_insert, ih hes,
      put_of_last fun a ha => hlast a ha e List.mem_cons_self]

theorem ofList_entries (m : SortedMap α) : ofList m.entries = m :=
  ext (entries_ofList m.sorted)

/-- A map is told by what it finds. -/
theorem ext_find? {m n : SortedMap α} (h : ∀ key, m.find? key = n.find? key) : m = n := by
  have hmem : ∀ e, e ∈ m.entries ↔ e ∈ n.entries := fun e => by
    rw [← find?_eq_some (m := m), h, find?_eq_some]
  have hperm : m.entries.Perm n.entries :=
    (List.perm_ext_iff_of_nodup m.keys_nodup.of_map n.keys_nodup.of_map).mpr hmem
  refine ext (hperm.eq_of_pairwise (fun a b _ _ hab hba => ?_) m.sorted n.sorted)
  have hself := CodePoints.precedes_trans hab hba
  rw [CodePoints.precedes_irrefl] at hself
  cases hself

end SortedMap
end Provision
