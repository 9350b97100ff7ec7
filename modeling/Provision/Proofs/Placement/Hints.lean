import Provision.Placement.Hints

/-! What the hints of a server are: for each policy the members of its groups that were placed before
it, group after group, and the resource of its server group. -/
namespace Provision

/-- The names, among those placed, of the members of the server's groups of one policy, in the order in
which the server names its groups. -/
def Topology.peers (t : Topology) (policy : PlacementPolicy) (placed : List String) (s : Server) :
    List String :=
  ((s.placementGroups.filterMap t.placementGroup?).filter fun g => g.policy = policy).flatMap
    fun g => placed.filter g.hasMember

/-- The resource of the server group that the server names. -/
def Topology.groupResource (t : Topology) (s : Server) : Option String :=
  (s.serverGroup.bind t.serverGroup?).map Group.resourceName

namespace Hints

@[simp] theorem near_assign (h : Hints) (placed : List String) (g : PlacementGroup) :
    (h.assign placed g).near =
      h.near ++ if g.policy = .affinity then placed.filter g.hasMember else [] := by
  cases hp : g.policy <;> simp [assign, near, hp]

@[simp] theorem apart_assign (h : Hints) (placed : List String) (g : PlacementGroup) :
    (h.assign placed g).apart =
      h.apart ++ if g.policy = .availability then placed.filter g.hasMember else [] := by
  cases hp : g.policy <;> simp [assign, apart, hp]

/-- What is added for one group after another is the row of the additions. -/
theorem foldl_assign {list : Hints → List String} {policy : PlacementPolicy} {placed : List String}
    (hstep : ∀ h (g : PlacementGroup), list (h.assign placed g) =
      list h ++ if g.policy = policy then placed.filter g.hasMember else [])
    (groups : List PlacementGroup) (h : Hints) :
    list (groups.foldl (fun h g => h.assign placed g) h) =
      list h ++ (groups.filter fun g => g.policy = policy).flatMap
        fun g => placed.filter g.hasMember := by
  induction groups generalizing h with
  | nil => simp
  | cons g rest ih =>
    rw [List.foldl_cons, ih, hstep]
    by_cases hp : g.policy = policy <;> simp [hp]

theorem near_forServer (t : Topology) (placed : List String) (s : Server) :
    (forServer t placed s).near = t.peers .affinity placed s :=
  foldl_assign (fun h g => near_assign h placed g) _ {}

theorem apart_forServer (t : Topology) (placed : List String) (s : Server) :
    (forServer t placed s).apart = t.peers .availability placed s :=
  foldl_assign (fun h g => apart_assign h placed g) _ {}

theorem group_forServer (t : Topology) (placed : List String) (s : Server) :
    (forServer t placed s).group = t.groupResource s := rfl

theorem isEmpty_iff (h : Hints) :
    h.isEmpty = true ↔ h.near = [] ∧ h.apart = [] ∧ h.group = none := by
  simp [isEmpty, and_assoc]

end Hints

namespace Topology

theorem mem_peers {t : Topology} {policy : PlacementPolicy} {placed : List String} {s : Server}
    {name : String} : name ∈ t.peers policy placed s ↔ name ∈ placed ∧ ∃ group ∈ s.placementGroups,
      ∃ g, t.placementGroup? group = some g ∧ g.policy = policy ∧ g.hasMember name = true := by
  simp only [peers, List.mem_flatMap, List.mem_filter, List.mem_filterMap, decide_eq_true_eq]
  constructor
  · rintro ⟨g, ⟨⟨group, hgroup, hg⟩, hp⟩, hplaced, hm⟩
    exact ⟨hplaced, group, hgroup, g, hg, hp, hm⟩
  · rintro ⟨hplaced, group, hgroup, g, hg, hp, hm⟩
    exact ⟨g, ⟨⟨group, hgroup, hg⟩, hp⟩, hplaced, hm⟩

/-- Hints point to nothing but servers placed before and the group of the server. -/
theorem referenced_subset (t : Topology) (placed : List String) (s : Server) :
    (Hints.forServer t placed s).referenced ⊆ placed ++ (t.groupResource s).toList := by
  intro name hname
  rw [Hints.referenced, Hints.near_forServer, Hints.apart_forServer, Hints.group_forServer] at hname
  rcases List.mem_append.mp hname with hname | hname
  · refine List.mem_append_left _ ?_
    rcases List.mem_append.mp hname with hname | hname <;> exact (mem_peers.mp hname).1
  · exact List.mem_append_right _ hname

end Topology
end Provision
