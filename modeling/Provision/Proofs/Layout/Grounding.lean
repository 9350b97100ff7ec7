import Provision.Proofs.Layout.Plan
import Provision.Proofs.Placement.Hints

/-! Nothing that a layout declares depends on anything that is declared later. For servers this rests on
what was built: their networks are declared, the servers that hints name were placed before, and a
server group that somebody names has a member. -/
namespace Provision

theorem Network.grounded (n : Network) (known : List String) :
    Grounded known (resourcesOf n.steps) := by
  cases hr : n.router? <;>
    simp [steps, hr, routerSteps, Grounded, resource, subnet, routerResource, interfaceResource]

/-- What ports on the network depend on is known. -/
def Network.Reachable (n : Network) (known : List String) : Prop :=
  n.subnetName ∈ known ∧ (n.router?.map Router.interfaceName).toList ⊆ known

theorem Network.Reachable.mono {n : Network} {known more : List String} (h : n.Reachable known)
    (hm : known ⊆ more) : n.Reachable more :=
  ⟨hm h.1, List.Subset.trans h.2 hm⟩

theorem Network.reachable_plan (n : Network) : n.Reachable (n.plan.map Prod.fst) := by
  cases hr : n.router? <;> simp [Reachable, plan, hr]

namespace Server

theorem grounded_port {n : Network} {known : List String} (hn : n.Reachable known) (s : Server)
    (inst : String) : Grounded known
      (s.portResource n (portName inst n.name) :: s.floatingIpResources inst n) := by
  refine ⟨List.cons_subset.mpr ⟨hn.1, List.nil_subset _⟩, ?_⟩
  unfold floatingIpResources
  split
  · refine ⟨List.subset_append_of_subset_left _ hn.2, ?_, trivial⟩
    simp [associationResource, floatingIpResource, portResource]
  · trivial

/-- An instance depends on its ports, its flavor and all that its hints refer to, and on nothing else. -/
theorem mem_instanceDependencies {s : Server} {ports : List String} {hints : Hints} {name : String} :
    name ∈ s.instanceDependencies ports hints ↔
      (name ∈ ports ∨ name ∈ s.ownFlavor) ∨ name ∈ hints.referenced := by
  have hfold : ∀ (names init : List String),
      name ∈ names.foldl (fun ds d => if ds.contains d then ds else ds ++ [d]) init ↔
        name ∈ init ∨ name ∈ names := by
    intro names
    induction names with
    | nil => intro init; simp
    | cons d rest ih =>
      intro init
      rw [List.foldl_cons, ih, List.mem_cons]
      split
      · next hc =>
        have hd : name = d → name ∈ init := fun he => he ▸ List.contains_iff_mem.mp hc
        rw [← or_assoc, or_iff_left_of_imp hd]
      · rw [List.mem_append, List.mem_singleton, or_assoc]
  rw [instanceDependencies, hfold, List.mem_append]

theorem ownFlavor_subset (s : Server) : s.ownFlavor ⊆ (resourcesOf s.flavorSteps).map Resource.name := by
  rcases hf : s.flavor with _ | name | f <;>
    simp [ownFlavor, flavorSteps, hf, flavorResource]

theorem grounded_instance {s : Server} {networks : List Network} {hints : Hints}
    {known : List String} (hn : ∀ n ∈ networks, n.Reachable known) (hf : s.ownFlavor ⊆ known)
    (hh : hints.referenced ⊆ known) (i : Nat) :
    Grounded known (resourcesOf (s.instanceSteps networks hints i)) := by
  rw [resourcesOf_instanceSteps]
  have hvolume : Grounded known (resourcesOf (s.volumeSteps (s.instanceName i))) := by
    rcases hv : s.declared.volume with _ | id | size <;>
      simp [volumeSteps, hv, Grounded, volumeResource]
  have hports : Grounded known (networks.flatMap fun n =>
      s.portResource n (portName (s.instanceName i) n.name) ::
        s.floatingIpResources (s.instanceName i) n) :=
    Grounded.flatMap fun n hm => grounded_port (hn n hm) s (s.instanceName i)
  refine (hvolume.append (hports.mono (List.subset_append_left _ _))).append ?_ |>.append ?_
  · refine ⟨fun name hname => ?_, trivial⟩
    rcases mem_instanceDependencies.mp hname with (hport | hflavor) | hhint
    · obtain ⟨n, hm, rfl⟩ := List.mem_map.mp hport
      have hp : s.portResource n (portName (s.instanceName i) n.name) ∈ networks.flatMap fun n =>
          s.portResource n (portName (s.instanceName i) n.name) ::
            s.floatingIpResources (s.instanceName i) n :=
        List.mem_flatMap.mpr ⟨n, hm, List.mem_cons_self⟩
      exact List.mem_append_right _ (List.mem_map.mpr ⟨_, List.mem_append_right _ hp, rfl⟩)
    · exact List.mem_append_left _ (hf hflavor)
    · exact List.mem_append_left _ (hh hhint)
  · rcases hv : s.declared.volume with _ | id | size <;>
      simp [attachmentSteps, volumeSteps, hv, Grounded, attachmentResource, volumeResource,
        instanceResource]

theorem grounded_steps {s : Server} {networks : List Network} {hints : Hints} {known : List String}
    (hn : ∀ n ∈ s.attached networks, n.Reachable known) (hh : hints.referenced ⊆ known) :
    Grounded known (resourcesOf (s.steps networks hints)) := by
  rw [resourcesOf_steps]
  refine Grounded.append ?_ (Grounded.flatMap fun i _ => grounded_instance ?_ ?_ ?_ i)
  · rcases hf : s.flavor with _ | name | f <;> simp [flavorSteps, hf, Grounded, flavorResource]
  · exact fun n hm => (hn n hm).mono (List.subset_append_left _ _)
  · exact List.subset_append_of_subset_right _ s.ownFlavor_subset
  · exact List.subset_append_of_subset_left _ hh

/-- The first instance bears the name of the server. -/
theorem resourceName_mem_plan {s : Server} (h : 0 < s.instances) :
    s.resourceName ∈ s.plan.map Prod.fst := by
  refine List.mem_map.mpr ⟨(s.instanceName 0, .server), ?_, rfl⟩
  refine List.mem_append_right _ (List.mem_flatMap.mpr ⟨0, List.mem_range.mpr h, ?_⟩)
  simp [instancePlan]

end Server

namespace Topology
variable {t : Topology}

/-- A server group that a server names has a member, so it is among the resources. -/
theorem groupResource_mem (h : t.WellFormed) {s : Server} (hs : s ∈ t.servers) :
    (t.groupResource s).toList ⊆
      ((t.serverGroups.filter fun g => !g.members.isEmpty).map Group.resourceName) := by
  cases hg : s.serverGroup with
  | none => simp [groupResource, hg]
  | some name =>
    obtain ⟨g, hm, hfound, rfl⟩ := h.serverGroup_known hs hg
    have hmember : g.hasMember s.resourceName = true :=
      (h.serverGroupMembers g hm _).mpr ⟨s, hs, hg, rfl⟩
    have hne : g.members.isEmpty = false := by
      obtain ⟨e, he, -⟩ := List.any_eq_true.mp hmember
      cases hes : g.members.entries with
      | nil => rw [hes] at he; cases he
      | cons e es => simp [SortedMap.isEmpty, hes]
    have hres : t.groupResource s = some g.resourceName := by simp [groupResource, hg, hfound]
    rw [hres]
    refine List.cons_subset.mpr ⟨List.mem_map.mpr ⟨g, ?_, rfl⟩, List.nil_subset _⟩
    exact List.mem_filter.mpr ⟨hm, by simp [hne]⟩

theorem grounded_serverSteps (h : t.WellFormed) {servers : List Server} (hs : servers ⊆ t.servers)
    {placed known : List String} (hp : placed ⊆ known)
    (hn : ∀ n ∈ t.networks, n.Reachable known)
    (hg : ∀ s ∈ servers, (t.groupResource s).toList ⊆ known) :
    Grounded known (resourcesOf (t.serverSteps placed servers)) := by
  induction servers generalizing placed known with
  | nil => trivial
  | cons s rest ih =>
    obtain ⟨hs, hrest⟩ := List.cons_subset.mp hs
    rw [serverSteps, resourcesOf_append]
    refine Grounded.append ?_ (ih hrest ?_ ?_ ?_)
    · refine Server.grounded_steps (fun n hm => hn n (Holds.mem_networks_of_attached hm)) ?_
      refine List.Subset.trans (t.referenced_subset placed s) (List.append_subset.mpr ⟨hp, ?_⟩)
      exact hg s List.mem_cons_self
    · refine List.append_subset.mpr ⟨List.subset_append_of_subset_left _ hp, ?_⟩
      rw [map_name_eq, Server.entries_steps s _ _ (h.attached_names hs)]
      exact List.cons_subset.mpr ⟨List.mem_append_right _
        (Server.resourceName_mem_plan (h.instances_pos hs)), List.nil_subset _⟩
    · exact fun n hm => (hn n hm).mono (List.subset_append_left _ _)
    · exact fun s hm => List.subset_append_of_subset_left _ (hg s (List.mem_cons_of_mem _ hm))

theorem grounded_baseSteps (t : Topology) : Grounded [] (resourcesOf t.baseSteps) := by
  have haccess : Grounded [] (resourcesOf t.keypairSteps ++ resourcesOf t.securityGroupSteps) := by
    unfold keypairSteps securityGroupSteps
    split <;> simp [Grounded]
  simp only [baseSteps, resourcesOf_append, resourcesOf_flatMap]
  refine (haccess.append ?_).append (Grounded.flatMap fun n _ => n.grounded _)
  refine Grounded.of_independent fun r hr => ?_
  obtain ⟨step, hstep, hr⟩ := List.mem_filterMap.mp hr
  obtain ⟨g, -, rfl⟩ := List.mem_map.mp hstep
  exact Option.some.inj hr ▸ rfl

/-- No layout of a topology that was built asks for a resource that is not there yet. -/
theorem grounded_steps (h : t.WellFormed) : Grounded [] (resourcesOf t.steps) := by
  rw [steps_eq, resourcesOf_append]
  refine t.grounded_baseSteps.append ?_
  rw [List.nil_append, map_name_eq, entries_baseSteps]
  refine grounded_serverSteps h (fun s hs => mem_placementOrder.mp hs) (List.nil_subset _) ?_ ?_
  · intro n hn
    refine n.reachable_plan.mono ?_
    simp only [basePlan, List.map_append, List.map_flatMap]
    exact List.subset_append_of_subset_right _ fun name hname => List.mem_flatMap.mpr ⟨n, hn, hname⟩
  · intro s hs
    refine List.Subset.trans (groupResource_mem h (mem_placementOrder.mp hs)) ?_
    simp only [basePlan, List.map_append, List.map_map]
    exact List.subset_append_of_subset_left _ (List.subset_append_right _ _)

end Topology
end Provision
