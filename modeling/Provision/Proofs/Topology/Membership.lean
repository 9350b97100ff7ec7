import Provision.Proofs.Checks
import Provision.Proofs.SortedMap
import Provision.Topology.Basic

/-! How servers become members of groups. Entering a server into the groups it names changes those
groups and no others, and changes nothing of them but their members. -/
namespace Provision

namespace Group
variable {π : Type}

/-- The group with the member, if its name is among the names. -/
def enroll (names : List String) (member : String) (g : Group π) : Group π :=
  if g.name ∈ names then g.addMember member else g

@[simp] theorem map_enroll_nil (member : String) (gs : List (Group π)) :
    gs.map (enroll [] member) = gs := List.map_id gs

@[simp] theorem enroll_name (names : List String) (member : String) (g : Group π) :
    (g.enroll names member).name = g.name := by
  unfold enroll
  split <;> rfl

@[simp] theorem enroll_context (names : List String) (member : String) (g : Group π) :
    (g.enroll names member).context = g.context := by
  unfold enroll
  split <;> rfl

@[simp] theorem enroll_policy (names : List String) (member : String) (g : Group π) :
    (g.enroll names member).policy = g.policy := by
  unfold enroll
  split <;> rfl

@[simp] theorem enroll_resourceName (names : List String) (member : String) (g : Group π) :
    (g.enroll names member).resourceName = g.resourceName := by
  simp [resourceName]

theorem enroll_of_not_mem {names : List String} {g : Group π} (member : String)
    (h : g.name ∉ names) : g.enroll names member = g := if_neg h

/-- A group that is named twice takes the member once. -/
theorem enroll_enroll (names : List String) (name member : String) (g : Group π) :
    (g.enroll names member).enroll [name] member = g.enroll (names ++ [name]) member := by
  by_cases h : g.name ∈ names
  · have hm : g.enroll names member = g.addMember member := if_pos h
    have hm' : g.enroll (names ++ [name]) member = g.addMember member :=
      if_pos (List.mem_append_left _ h)
    rw [hm, hm', enroll]
    split
    · exact congrArg (fun m => { g with members := m }) (SortedMap.insert_insert g.members member ())
    · rfl
  · simp [enroll, h]

theorem hasMember_enroll (names : List String) (member x : String) (g : Group π) :
    (g.enroll names member).hasMember x = true ↔
      (g.name ∈ names ∧ x = member) ∨ g.hasMember x = true := by
  by_cases h : g.name ∈ names
  · simp [enroll, h, addMember, hasMember, SortedMap.contains_insert]
  · simp [enroll, h]

end Group

namespace Topology
variable {π : Type} {group member : String} {gs gs' : List (Group π)}

/-- Entering a member finds the group and leaves all others as they are. -/
theorem join?_some (hn : (gs.map Group.name).Nodup) (h : join? group member gs = some gs') :
    group ∈ gs.map Group.name ∧ gs' = gs.map (Group.enroll [group] member) := by
  induction gs generalizing gs' with
  | nil => cases h
  | cons g rest ih =>
    rw [List.map_cons, List.nodup_cons] at hn
    simp only [join?] at h
    split at h
    · next hg =>
      cases h
      have hrest : rest.map (Group.enroll [group] member) = rest.map id :=
        List.map_congr_left fun g' hg' => Group.enroll_of_not_mem member fun hm =>
          hn.1 (hg ▸ List.mem_singleton.mp hm ▸ List.mem_map_of_mem hg')
      exact ⟨hg ▸ List.mem_cons_self, by simp [hrest, Group.enroll, hg]⟩
    · next hg =>
      obtain ⟨rest', hrest, rfl⟩ := Option.map_eq_some_iff.mp h
      obtain ⟨hm, rfl⟩ := ih hn.2 hrest
      exact ⟨List.mem_cons_of_mem _ hm, by simp [Group.enroll, hg]⟩

theorem map_name_enroll (names : List String) (gs : List (Group π)) :
    (gs.map (Group.enroll names member)).map Group.name = gs.map Group.name := by
  simp [Function.comp_def]

/-- A server that was entered into its placement groups names only groups that there are. -/
theorem joinPlacement_ok {s : Server} {gs gs' : List PlacementGroup}
    (hn : (gs.map Group.name).Nodup) (h : joinPlacement s gs = .ok gs') :
    s.placementGroups ⊆ gs.map Group.name ∧
      gs' = gs.map (Group.enroll s.placementGroups s.resourceName) := by
  refine Checks.foldlM_ok (fun done (now : List PlacementGroup) => done ⊆ gs.map Group.name ∧
    now = gs.map (Group.enroll done s.resourceName)) ?_ ?_ h
  · simp
  · rintro done name now now' ⟨hsub, rfl⟩ hstep
    split at hstep
    · next next hjoin =>
      cases hstep
      obtain ⟨hm, rfl⟩ := join?_some (by rwa [map_name_enroll]) hjoin
      rw [map_name_enroll] at hm
      refine ⟨List.append_subset.mpr ⟨hsub, by simpa using hm⟩, ?_⟩
      simp [Function.comp_def, Group.enroll_enroll]
    · cases hstep

theorem joinServerGroup_ok {s : Server} {gs gs' : List ServerGroup}
    (hn : (gs.map Group.name).Nodup) (h : joinServerGroup s gs = .ok gs') :
    s.serverGroup.toList ⊆ gs.map Group.name ∧
      gs' = gs.map (Group.enroll s.serverGroup.toList s.resourceName) := by
  unfold joinServerGroup at h
  split at h
  · next hs =>
    cases h
    simp [hs]
  · next name hs =>
    split at h
    · next next hjoin =>
      cases h
      obtain ⟨hm, rfl⟩ := join?_some hn hjoin
      simp [hs, hm]
    · cases h

end Topology
end Provision
