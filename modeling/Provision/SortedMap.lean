import Provision.CodePoints

/-! A map that lists its keys in the order of code points. Outputs of a graph, parameters and group
members are tables of this kind, so what is printed does not depend on who wrote first. -/
namespace Provision

open CodePoints

structure SortedMap (α : Type) where
  entries : List (String × α)
  sorted : entries.Pairwise fun a b => precedes a.1.toList b.1.toList = true
  deriving DecidableEq

namespace SortedMap
variable {α β : Type}

/-- Puts the pair in its place; a key that is there takes the new value. -/
def put (key : String) (value : α) : List (String × α) → List (String × α)
  | [] => [(key, value)]
  | (k, v) :: rest =>
    if k = key then (key, value) :: rest
    else if precedes key.toList k.toList then (key, value) :: (k, v) :: rest
    else (k, v) :: put key value rest

theorem mem_put {key : String} {value : α} {e : String × α} {es : List (String × α)}
    (h : e ∈ put key value es) : e = (key, value) ∨ e ∈ es := by
  induction es with
  | nil => simpa [put] using h
  | cons x xs ih =>
    obtain ⟨k, v⟩ := x
    simp only [put] at h
    split at h
    · exact (List.mem_cons.mp h).imp id (List.mem_cons_of_mem _)
    · split at h
      · exact List.mem_cons.mp h
      · rcases List.mem_cons.mp h with h | h
        · exact Or.inr (h ▸ List.mem_cons_self)
        · exact (ih h).imp id (List.mem_cons_of_mem _)

theorem sorted_put (key : String) (value : α) {es : List (String × α)}
    (h : es.Pairwise fun a b => precedes a.1.toList b.1.toList = true) :
    (put key value es).Pairwise fun a b => precedes a.1.toList b.1.toList = true := by
  induction es with
  | nil => simp [put]
  | cons x xs ih =>
    obtain ⟨k, v⟩ := x
    have hx := List.pairwise_cons.mp h
    simp only [put]
    split
    · next hk => exact List.pairwise_cons.mpr ⟨fun e he => by simpa [← hk] using hx.1 e he, hx.2⟩
    · next hk =>
      split
      · next hlt =>
        refine List.pairwise_cons.mpr ⟨fun e he => ?_, h⟩
        rcases List.mem_cons.mp he with rfl | he
        · exact hlt
        · exact precedes_trans hlt (hx.1 e he)
      · next hlt =>
        refine List.pairwise_cons.mpr ⟨fun e he => ?_, ih hx.2⟩
        rcases mem_put he with rfl | he
        · cases hkk : precedes k.toList key.toList with
          | true => rfl
          | false =>
            exact absurd (String.toList_inj.mp (eq_of_not_precedes hkk (by simpa using hlt))) hk
        · exact hx.1 e he

def empty : SortedMap α := ⟨[], .nil⟩

instance : EmptyCollection (SortedMap α) := ⟨empty⟩
instance : Inhabited (SortedMap α) := ⟨empty⟩

def insert (m : SortedMap α) (key : String) (value : α) : SortedMap α :=
  ⟨put key value m.entries, sorted_put key value m.sorted⟩

/-- Enters one value under many keys. -/
def insertAll (m : SortedMap α) (keys : List String) (value : α) : SortedMap α :=
  keys.foldl (fun m key => m.insert key value) m

/-- Of two pairs with one key the later one counts. -/
def ofList (es : List (String × α)) : SortedMap α :=
  es.foldl (fun m e => m.insert e.1 e.2) ∅

def find? (m : SortedMap α) (key : String) : Option α :=
  (m.entries.find? fun e => e.1 == key).map Prod.snd

def contains (m : SortedMap α) (key : String) : Bool := m.entries.any fun e => e.1 == key

def keys (m : SortedMap α) : List String := m.entries.map Prod.fst
def size (m : SortedMap α) : Nat := m.entries.length
def isEmpty (m : SortedMap α) : Bool := m.entries.isEmpty

@[simp] theorem entries_empty : (∅ : SortedMap α).entries = [] := rfl

@[simp] theorem entries_insert (m : SortedMap α) (key : String) (value : α) :
    (m.insert key value).entries = put key value m.entries := rfl

theorem ext {m n : SortedMap α} (h : m.entries = n.entries) : m = n := by
  cases m; cases n; cases h; rfl

end SortedMap

/-- A set of names in the order of code points. -/
abbrev NameSet := SortedMap Unit

end Provision
