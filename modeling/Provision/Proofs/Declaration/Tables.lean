import Provision.Proofs.Declaration.RoundTrip

/-! Tables of declarations: an object that lists pairs, repeated keys included, is read as the map that is made
from the pairs, and so is what is written for the map. -/
namespace Provision

open Json

namespace Json
variable {α : Type} {read : Json → Option α} {write : α → Json} {ms : List (String × Json)}
  {es : List (String × α)}

/-- The members are the pairs in their order, each value in some form in which it is read. -/
def Lists (read : Json → Option α) (ms : List (String × Json)) (es : List (String × α)) : Prop :=
  List.Forall₂ (fun m e => m.1 = e.1 ∧ read m.2 = some e.2) ms es

theorem entries?_obj_iff : entries? read (obj ms) = some es ↔ Lists read ms es := by
  have hmember : (fun (m : String × Json) (e : String × α) => (read m.2).map (m.1, ·) = some e) =
      fun m e => m.1 = e.1 ∧ read m.2 = some e.2 := by
    funext m ⟨key, v⟩
    simp [and_comm]
  rw [entries?, mapM_eq_some_iff, hmember, Lists]

theorem orderedMap?_of_lists (h : Lists read ms es) : orderedMap? read (obj ms) = some (.ofList es) := by
  rw [orderedMap?, entries?_obj_iff.mpr h]
  rfl

theorem readText_of_parse? {read : Nat → Json → Option α} {text : String} {x : Json}
    (h : parse? text = some x) : readText read text = read maxDepth x := by
  rw [readText, h]
  rfl

/-- A table of values of any kind is read so that within each value the last of repeated keys counts as well. -/
theorem readTable_of_parse? {text : String} (h : parse? text = some (obj ms))
    (hfits : (obj ms).fits maxDepth = true) :
    readTable text = some (.ofList (ms.map fun m => (m.1, m.2.collapse))) := by
  rw [readTable, readText_of_parse? h, if_pos hfits]
  exact orderedMap?_of_lists (List.forall₂_map_right_iff.mpr (List.forall₂_same.mpr fun _ _ => ⟨rfl, rfl⟩))

/-- The text of an object need not have distinct keys. -/
theorem parse?_compact_obj (h : ∀ m ∈ ms, Reads m.2) : parse? (compact (obj ms)) = some (obj ms) :=
  parse?_compact_of_reads (.obj h)

end Json

namespace OrderedMap
variable {α : Type}

/-- Putting pairs in one by one, collecting them and reading an object, or the text of an object, that lists them
all make the one map that keeps the distinct keys in the order in which they first come, each with its last value.
The map is made again from its own entries and from what is written for it. -/
theorem built_alike (es : List (String × α)) (read : Json → Option α) (write : α → Json) :
    (∀ m : OrderedMap α, m.Keeps es ↔ m = ofList es) ∧
    es.foldl (fun m e => m.insert e.1 e.2) ∅ = ofList es ∧
    (∀ ms, Lists read ms es → orderedMap? read (obj ms) = some (ofList es) ∧
      (∀ text, parse? text = some (obj ms) →
        readText (fun _ => orderedMap? read) text = some (ofList es)) ∧
      ((∀ m ∈ ms, Reads m.2) →
        readText (fun _ => orderedMap? read) (compact (obj ms)) = some (ofList es))) ∧
    ofList (ofList es).entries = ofList es ∧
    ((∀ e ∈ (ofList es).entries, read (write e.2) = some e.2) →
      orderedMap? read (members write (ofList es).entries) = some (ofList es) ∧
      ((∀ e ∈ (ofList es).entries, Reads (write e.2)) →
        readText (fun _ => orderedMap? read) (compact (members write (ofList es).entries)) =
          some (ofList es))) := by
  refine ⟨fun m => keeps_iff, rfl, fun ms hms => ?_, ofList_entries _, fun hread => ?_⟩
  · have hobj := orderedMap?_of_lists hms
    have htext : ∀ text, parse? text = some (obj ms) →
        readText (fun _ => orderedMap? read) text = some (ofList es) :=
      fun text h => (readText_of_parse? h).trans hobj
    exact ⟨hobj, htext, fun htexts => htext _ (parse?_compact_obj htexts)⟩
  · have hback : orderedMap? read (members write (ofList es).entries) = some (ofList es) :=
      orderedMap?_members hread
    refine ⟨hback, fun htexts => ?_⟩
    exact (readText_of_parse? (parse?_compact_obj (List.forall_mem_map.mpr htexts))).trans hback

def repeatedPairs : List (String × GroupDeclaration) :=
  [("web", ⟨"affinity"⟩), ("db", ⟨"anti-affinity"⟩), ("web", ⟨"availability"⟩)]

/-- The same pairs, one of them with the fields in order and one with a member that is skipped. -/
def repeatedMembers : List (String × Json) :=
  [("web", obj [("policy", str "affinity")]), ("db", arr [str "anti-affinity"]),
    ("web", obj [("note", null), ("policy", str "availability")])]

theorem built_alike_sample :
    Lists GroupDeclaration.read repeatedMembers repeatedPairs ∧
    parse? (compact (obj repeatedMembers)) = some (obj repeatedMembers) ∧
    (∀ m ∈ repeatedMembers, Reads m.2) ∧
    (∀ e ∈ (ofList repeatedPairs).entries,
      GroupDeclaration.read e.2.toJson = some e.2 ∧ Reads e.2.toJson) ∧
    (ofList repeatedPairs).entries = [("web", ⟨"availability"⟩), ("db", ⟨"anti-affinity"⟩)] ∧
    orderedMap? GroupDeclaration.read (obj repeatedMembers) = some (ofList repeatedPairs) ∧
    readText (fun _ => orderedMap? GroupDeclaration.read) (compact (obj repeatedMembers)) =
      some (ofList repeatedPairs) ∧
    readText (fun _ => orderedMap? GroupDeclaration.read)
      (compact (members GroupDeclaration.toJson (ofList repeatedPairs).entries)) =
        some (ofList repeatedPairs) := by
  have hlists : Lists GroupDeclaration.read repeatedMembers repeatedPairs :=
    entries?_obj_iff.mp (by rfl)
  have hplain : ∀ m ∈ repeatedMembers, m.2.Plain := by
    simp [repeatedMembers, plain_obj, plain_arr, Plain.str, Plain.null]
  have htexts : ∀ m ∈ repeatedMembers, Reads m.2 := fun m hm => (hplain m hm).reads
  have hparse := parse?_compact_obj htexts
  have hback : ∀ e ∈ (ofList repeatedPairs).entries, GroupDeclaration.read e.2.toJson = some e.2 :=
    fun e _ => e.2.read_toJson
  have hforms : ∀ e ∈ (ofList repeatedPairs).entries, Reads e.2.toJson :=
    fun e _ => e.2.within_toJson.plain.reads
  obtain ⟨-, -, hread, -, hwritten⟩ :=
    built_alike repeatedPairs GroupDeclaration.read GroupDeclaration.toJson
  obtain ⟨hobj, hparsed, -⟩ := hread _ hlists
  exact ⟨hlists, hparse, htexts, fun e he => ⟨hback e he, hforms e he⟩, by decide, hobj,
    hparsed _ hparse, (hwritten hback).2 hforms⟩

end OrderedMap
end Provision
