import Mathlib.Data.List.Nodup
import Mathlib.Data.List.Perm.Basic
import Provision.Placement.Order

/-! The order of placement is a rearrangement of the servers: nobody is left out or placed twice. Whoever is
scheduled is known by the position, and that is the same as to be of a policy that was dealt with before. -/
namespace Provision

section
variable {α β : Type} {key : β → Nat} {f : α → β}

theorem map_insertByKey (a : α) (as : List α) :
    (insertByKey (fun a => key (f a)) a as).map f = insertByKey key (f a) (as.map f) := by
  induction as with
  | nil => rfl
  | cons b bs ih =>
    rw [List.map_cons, insertByKey, insertByKey]
    split
    · rfl
    · rw [List.map_cons, ih]

/-- What has the same key is sorted the same way, whatever it carries besides. -/
theorem map_sortByKey (f : α → β) (key : β → Nat) (as : List α) :
    (sortByKey (fun a => key (f a)) as).map f = sortByKey key (as.map f) := by
  induction as with
  | nil => rfl
  | cons a as ih => rw [sortByKey, map_insertByKey, ih, List.map_cons, sortByKey]

end
namespace Topology

/-- The servers by the number of placement groups they name. -/
def byGroupCount (servers : List Server) : List Server :=
  sortByKey (fun s => s.placementGroups.length) servers

/-- Whoever was taken out of a row is told by the position. -/
theorem contains_taken {row : List (Server × Nat)} (hrow : (row.map Prod.snd).Nodup)
    (p : Server × Nat → Bool) {e : Server × Nat} (he : e ∈ row) :
    ((row.filter p).map Prod.snd).contains e.2 = p e := by
  rw [Bool.eq_iff_iff, List.contains_iff_mem, List.mem_map]
  refine ⟨?_, fun hp => ⟨e, List.mem_filter.mpr ⟨he, hp⟩, rfl⟩⟩
  rintro ⟨e', he', hsame⟩
  obtain ⟨he', hp⟩ := List.mem_filter.mp he'
  rwa [List.inj_on_of_nodup_map hrow he' he hsame] at hp

/-- The servers are dealt out by their policies alone. -/
theorem placementOrder_eq (t : Topology) : t.placementOrder =
    (byGroupCount t.servers).filter (t.inPolicy .availability) ++
    (byGroupCount t.servers).filter (fun s => t.inPolicy .affinity s && !t.inPolicy .availability s) ++
    (byGroupCount t.servers).filter
      (fun s => !t.inPolicy .affinity s && !t.inPolicy .availability s) := by
  have hservers : (sortByKey (fun e : Server × Nat => e.1.placementGroups.length) t.servers.zipIdx).map
      Prod.fst = byGroupCount t.servers := by
    have hmapped := map_sortByKey Prod.fst (fun s : Server => s.placementGroups.length) t.servers.zipIdx
    rwa [List.zipIdx_map_fst] at hmapped
  have hpositions : ((sortByKey (fun e : Server × Nat => e.1.placementGroups.length)
      t.servers.zipIdx).map Prod.snd).Nodup := by
    rw [((sortByKey_perm _ _).map Prod.snd).nodup_iff, List.zipIdx_map_snd]
    exact List.nodup_range' ..
  rw [placementOrder, schedule, ← hservers]
  generalize sortByKey (fun e : Server × Nat => e.1.placementGroups.length) t.servers.zipIdx = row at *
  have hnear : row.filter (fun e => t.inPolicy .affinity e.1 &&
      !((row.filter fun e => t.inPolicy .availability e.1).map Prod.snd).contains e.2) =
      row.filter fun e => t.inPolicy .affinity e.1 && !t.inPolicy .availability e.1 :=
    List.filter_congr fun e he => by rw [contains_taken hpositions _ he]
  have hrest : row.filter (fun e => !(((row.filter fun e => t.inPolicy .availability e.1) ++
      row.filter fun e => t.inPolicy .affinity e.1 && !t.inPolicy .availability e.1).map
        Prod.snd).contains e.2) =
      row.filter fun e => !t.inPolicy .affinity e.1 && !t.inPolicy .availability e.1 := by
    refine List.filter_congr fun e he => ?_
    rw [List.map_append, List.contains_append, contains_taken hpositions _ he,
      contains_taken hpositions _ he]
    cases t.inPolicy .affinity e.1 <;> cases t.inPolicy .availability e.1 <;> rfl
  rw [hnear, hrest, List.map_append, List.map_append, List.filter_map, List.filter_map, List.filter_map]
  rfl

theorem placementOrder_perm (t : Topology) : t.placementOrder.Perm t.servers := by
  have hrow : (byGroupCount t.servers).Perm t.servers := sortByKey_perm _ _
  refine List.Perm.trans ?_ hrow
  rw [placementOrder_eq, List.append_assoc, ← List.filter_filter, ← List.filter_filter]
  refine List.Perm.trans ?_ (List.filter_append_perm (t.inPolicy .availability) _)
  exact (List.filter_append_perm (t.inPolicy .affinity) _).append_left _

theorem mem_placementOrder {t : Topology} {s : Server} : s ∈ t.placementOrder ↔ s ∈ t.servers :=
  t.placementOrder_perm.mem_iff

end Topology
end Provision
