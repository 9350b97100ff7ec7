import Mathlib.Data.Finset.Card
import Mathlib.Data.List.Induction
import Mathlib.Data.List.Nodup
import Provision.OrderedMap
import Provision.Proofs.SortedMap

/-! Ordered maps made from a list: pairs with different keys are kept in the order in which they come, and of
the pairs with one key the place of the first and the value of the last. -/
namespace Provision

/-- Something that is named at the end of a list is new only if it was not named before. -/
theorem eraseDups_concat {α : Type} [DecidableEq α] (l : List α) (a : α) :
    (l ++ [a]).eraseDups = if a ∈ l then l.eraseDups else l.eraseDups ++ [a] := by
  rw [List.eraseDups_append]
  split
  · next ha => simp [List.removeAll, ha]
  · next ha => simp [List.removeAll, ha, List.eraseDups_cons]

namespace OrderedMap
variable {α : Type}

theorem put_of_new {key : String} {es : List (String × α)} (h : key ∉ es.map Prod.fst) (value : α) :
    put key value es = es ++ [(key, value)] := by
  induction es with
  | nil => rfl
  | cons e es ih =>
    obtain ⟨hne, hes⟩ := not_or.mp fun he => h (List.mem_cons.mpr he)
    rw [put, if_neg (Ne.symm hne), ih hes]
    rfl

theorem ofList_append_singleton (es : List (String × α)) (e : String × α) :
    ofList (es ++ [e]) = (ofList es).insert e.1 e.2 := by
  simp [ofList]

/-- Pairs with different keys are kept in their order. -/
theorem entries_ofList {es : List (String × α)} (h : (es.map Prod.fst).Nodup) :
    (ofList es).entries = es := by
  induction es using List.reverseRecOn with
  | nil => rfl
  | append_singleton es e ih =>
    rw [List.map_append, List.nodup_append] at h
    have hnew : e.1 ∉ es.map Prod.fst := fun he => h.2.2 _ he e.1 (by simp) rfl
    rw [ofList_append_singleton, entries_insert, ih h.1, put_of_new hnew]

theorem ofList_entries (m : OrderedMap α) : ofList m.entries = m :=
  ext (entries_ofList m.nodup)

/-! Keys and lookups. -/

theorem find?_isSome (m : OrderedMap α) (key : String) : (m.find? key).isSome = true ↔ key ∈ m.keys := by
  simp [find?, keys]

theorem find?_put (key x : String) (value : α) (es : List (String × α)) :
    ((put key value es).find? fun e => e.1 == x).map Prod.snd =
      if x = key then some value else (es.find? fun e => e.1 == x).map Prod.snd := by
  induction es with
  | nil =>
    by_cases hx : x = key
    · simp [put, hx]
    · simp [put, hx, Ne.symm hx]
  | cons e es ih =>
    obtain ⟨k, v⟩ := e
    by_cases hk : k = key
    · by_cases hx : x = key
      · simp [put, hk, hx]
      · simp [put, hk, hx, Ne.symm hx]
    · by_cases hkx : k = x
      · have hx : x ≠ key := hkx ▸ hk
        simp [put, hkx, hx]
      · simp [put, hk, hkx, ih]

@[simp] theorem find?_insert (m : OrderedMap α) (key x : String) (value : α) :
    (m.insert key value).find? x = if x = key then some value else m.find? x :=
  find?_put key x value m.entries

/-- A key is found with the value that stands beside it. -/
theorem find?_of_mem (m : OrderedMap α) {e : String × α} (he : e ∈ m.entries) :
    m.find? e.1 = some e.2 := by
  rw [find?, (find?_iff_of_nodup m.nodup).mpr ⟨he, rfl⟩]
  rfl

/-- The entries are the keys, each with what is found for it. -/
theorem entries_eq_keys (m : OrderedMap α) :
    m.entries.map (fun e => (e.1, some e.2)) = m.keys.map fun key => (key, m.find? key) := by
  rw [keys, List.map_map]
  exact List.map_congr_left fun e he => by rw [Function.comp_apply, m.find?_of_mem he]

/-- The value of the last of the pairs with the key. -/
def lastValue? (es : List (String × α)) (key : String) : Option α :=
  (es.reverse.find? fun e => e.1 == key).map Prod.snd

theorem find?_ofList (es : List (String × α)) (key : String) :
    (ofList es).find? key = lastValue? es key := by
  induction es using List.reverseRecOn with
  | nil => rfl
  | append_singleton es e ih =>
    rw [ofList_append_singleton, find?_insert, ih, lastValue?, lastValue?, List.reverse_append]
    by_cases hk : key = e.1
    · simp [hk]
    · simp [hk, Ne.symm hk]

theorem keys_ofList (es : List (String × α)) : (ofList es).keys = (es.map Prod.fst).eraseDups := by
  induction es using List.reverseRecOn with
  | nil => rfl
  | append_singleton es e ih =>
    rw [ofList_append_singleton, keys_insert, ih, List.map_append, List.map_singleton, eraseDups_concat]
    simp only [List.mem_eraseDups]

/-! What the map of a list holds. -/

/-- The keys of the pairs, in the order in which they first come, each with its last value. -/
structure Keeps (m : OrderedMap α) (es : List (String × α)) : Prop where
  entries : m.entries.map (fun e => (e.1, some e.2)) =
    (es.map Prod.fst).eraseDups.map fun key => (key, lastValue? es key)
  found : ∀ key, m.find? key = lastValue? es key
  isSome : ∀ key, (m.find? key).isSome = true ↔ key ∈ es.map Prod.fst
  size : m.size = (es.map Prod.fst).toFinset.card

theorem size_eq_card (m : OrderedMap α) : m.size = m.keys.toFinset.card := by
  rw [keys, List.toFinset_card_of_nodup m.nodup, List.length_map]
  rfl

theorem keeps_ofList (es : List (String × α)) : (ofList es).Keeps es where
  entries := by simp only [entries_eq_keys, keys_ofList, find?_ofList]
  found := find?_ofList es
  isSome key := by rw [find?_isSome, keys_ofList, List.mem_eraseDups]
  size := by
    have hsame : (es.map Prod.fst).eraseDups.toFinset = (es.map Prod.fst).toFinset := by
      ext key
      simp
    rw [size_eq_card, keys_ofList, hsame]

/-- No other map keeps this. -/
theorem keeps_iff {m : OrderedMap α} {es : List (String × α)} : m.Keeps es ↔ m = ofList es := by
  refine ⟨fun h => ?_, fun h => h ▸ keeps_ofList es⟩
  have hentries := h.entries.trans (keeps_ofList es).entries.symm
  exact ext (List.map_injective_iff.mpr (fun e e' he => by simpa [Prod.ext_iff] using he) hentries)

end OrderedMap
end Provision
