import Provision.Layout.Basic
import Provision.Proofs.Layout.Run
import Provision.Proofs.Placement.Order
import Provision.Proofs.Topology.WellFormed

/-! The plan of a topology: which resources it becomes, in which order, told without the steps of a
layout. The steps of a topology that was built declare what the plan says. -/
namespace Provision

/-- A resource to be declared: its name and its kind. -/
abbrev PlanEntry := String × ResourceKind

def Resource.entry (r : Resource) : PlanEntry := (r.name, r.kind)

theorem map_name_eq (rs : List Resource) : rs.map Resource.name = (rs.map Resource.entry).map Prod.fst := by
  simp [Resource.entry]

/-- Entries whose names are not all different have a first one whose name came before. -/
theorem exists_firstRepeat {plan : List PlanEntry} (h : ¬ (plan.map Prod.fst).Nodup) :
    ∃ before entry after, plan = before ++ entry :: after ∧ (before.map Prod.fst).Nodup ∧
      entry.1 ∈ before.map Prod.fst := by
  rcases nodup_or_firstRepeat List.nodup_nil (plan.map Prod.fst) with
    hn | ⟨names, name, rest, hp, hn, hname⟩
  · exact absurd hn h
  · obtain ⟨before, rest', hplan, rfl, hrest⟩ := List.map_eq_append_iff.mp hp
    obtain ⟨entry, after, rfl, rfl, rfl⟩ := List.map_eq_cons_iff.mp hrest
    exact ⟨before, entry, after, hplan, hn, hname⟩

def Network.plan (n : Network) : List PlanEntry :=
  [(n.resourceName, if n.isProvider then .providerNetwork else .network), (n.subnetName, .subnet)] ++
    match n.router? with
    | some r => [(r.resourceName, .router), (r.interfaceName, .routerInterface)]
    | none => []

namespace Server

/-- The port of an instance on a network, with its floating address if it carries the one. -/
def portPlan (s : Server) (inst network : String) : List PlanEntry :=
  (portName inst network, .port) ::
    if s.floatingIp.any fun f => f.network = network then
      [(floatingIpName inst, .floatingIp), (associationName inst, .floatingIpAssociation)]
    else []

/-- Whether the server's volume is made for it. -/
def makesVolume (s : Server) : Bool :=
  match s.declared.volume with
  | some (.inline _) => true
  | _ => false

/-- Whether the server's flavor is made for it. -/
def makesFlavor (s : Server) : Bool :=
  match s.flavor with
  | some (.inline _) => true
  | _ => false

theorem mem_ownFlavor {s : Server} {name : String} :
    name ∈ s.ownFlavor ↔ s.makesFlavor = true ∧ name = s.flavorName := by
  rcases hf : s.flavor with _ | name | f <;> simp [ownFlavor, makesFlavor, hf]

def instancePlan (s : Server) (i : Nat) : List PlanEntry :=
  let inst := s.instanceName i
  (if s.makesVolume then [(volumeName inst, .volume)] else []) ++
    s.networks.flatMap (s.portPlan inst) ++ [(inst, .server)] ++
    if s.declared.volume.isSome then [(attachmentName inst, .volumeAttachment)] else []

def plan (s : Server) : List PlanEntry :=
  (if s.makesFlavor then [(s.flavorName, .flavor)] else []) ++
    (List.range s.instances).flatMap s.instancePlan

theorem instancePlan_subset (s : Server) {i : Nat} (hi : i < s.instances) : s.instancePlan i ⊆ s.plan :=
  fun _ he => List.mem_append_right _ (List.mem_flatMap.mpr ⟨i, List.mem_range.mpr hi, he⟩)

theorem server_mem_instancePlan (s : Server) (i : Nat) : (s.instanceName i, .server) ∈ s.instancePlan i := by
  simp [instancePlan]

theorem port_mem_instancePlan (s : Server) (i : Nat) {network : String} (hn : network ∈ s.networks) :
    (portName (s.instanceName i) network, .port) ∈ s.instancePlan i := by
  refine List.mem_append_left _ (List.mem_append_left _ (List.mem_append_right _ ?_))
  exact List.mem_flatMap.mpr ⟨network, hn, List.mem_cons_self⟩

theorem floatingIp_mem_instancePlan (s : Server) (i : Nat) {f : FloatingIp} (hf : s.floatingIp = some f)
    (hn : f.network ∈ s.networks) : (floatingIpName (s.instanceName i), .floatingIp) ∈ s.instancePlan i := by
  refine List.mem_append_left _ (List.mem_append_left _ (List.mem_append_right _ ?_))
  exact List.mem_flatMap.mpr ⟨f.network, hn, by simp [portPlan, hf]⟩

end Server

namespace Topology

/-- What stands before all servers: access, the server groups that have members, and the networks. -/
def basePlan (t : Topology) : List PlanEntry :=
  [(t.keypair, .keyPair), (t.securityGroup, .securityGroup)] ++
    (t.serverGroups.filter fun g => !g.members.isEmpty).map (fun g => (g.resourceName, .serverGroup)) ++
    t.networks.flatMap Network.plan

/-- The servers come last, in the order of their placement. -/
def plan (t : Topology) : List PlanEntry := t.basePlan ++ t.placementOrder.flatMap Server.plan

variable {t : Topology} {s : Server} {i : Nat}

theorem network_plan_subset {n : Network} (hn : n ∈ t.networks) : n.plan ⊆ t.plan :=
  fun _ he => List.mem_append_left _ (List.mem_append_right _ (List.mem_flatMap.mpr ⟨n, hn, he⟩))

theorem server_plan_subset (hs : s ∈ t.servers) : s.plan ⊆ t.plan :=
  fun _ he => List.mem_append_right _ (List.mem_flatMap.mpr ⟨s, mem_placementOrder.mpr hs, he⟩)

theorem server_mem_plan (hs : s ∈ t.servers) (hi : i < s.instances) :
    (s.instanceName i, .server) ∈ t.plan :=
  server_plan_subset hs (s.instancePlan_subset hi (s.server_mem_instancePlan i))

theorem port_mem_plan (hs : s ∈ t.servers) (hi : i < s.instances) {network : String}
    (hn : network ∈ s.networks) : (portName (s.instanceName i) network, .port) ∈ t.plan :=
  server_plan_subset hs (s.instancePlan_subset hi (s.port_mem_instancePlan i hn))

theorem floatingIp_mem_plan (hs : s ∈ t.servers) (hi : i < s.instances) {f : FloatingIp}
    (hf : s.floatingIp = some f) (hn : f.network ∈ s.networks) :
    (floatingIpName (s.instanceName i), .floatingIp) ∈ t.plan :=
  server_plan_subset hs (s.instancePlan_subset hi (s.floatingIp_mem_instancePlan i hf hn))

theorem volume_mem_plan (hs : s ∈ t.servers) (hi : i < s.instances) {size : UInt32}
    (hv : s.declared.volume = some (.inline size)) :
    (volumeName (s.instanceName i), .volume) ∈ t.plan := by
  refine server_plan_subset hs (s.instancePlan_subset hi ?_)
  simp [Server.instancePlan, Server.makesVolume, hv]

theorem flavor_mem_plan (hs : s ∈ t.servers) {name : String} (hf : name ∈ s.ownFlavor) :
    (name, .flavor) ∈ t.plan := by
  obtain ⟨hmakes, rfl⟩ := Server.mem_ownFlavor.mp hf
  exact server_plan_subset hs (List.mem_append_left _ (by simp [hmakes]))

end Topology

/-! The steps of a layout declare what the plan says. -/

theorem Network.entries_steps (n : Network) :
    (resourcesOf n.steps).map Resource.entry = n.plan := by
  cases hr : n.router? <;>
    simp [Network.steps, Network.plan, hr, Network.routerSteps, Resource.entry, Network.resource,
      Network.subnet, Network.routerResource, Network.interfaceResource]

namespace Server

/-- The floating address and its association, where the server's address goes through the network. -/
def floatingIpResources (s : Server) (inst : String) (n : Network) : List Resource :=
  match s.floatingIp.filter fun f => f.network == n.name with
  | some f => [floatingIpResource inst f n, associationResource inst (portName inst n.name)]
  | none => []

theorem resourcesOf_portSteps (s : Server) (i : Nat) (n : Network) :
    resourcesOf (s.portSteps i n) =
      s.portResource n (portName (s.instanceName i) n.name) ::
        s.floatingIpResources (s.instanceName i) n := by
  have hnote : resourcesOf (if i = 0 then
      [Step.notePort s.name n.name (portName (s.instanceName i) n.name)] else []) = [] := by
    split <;> rfl
  have hfloating : resourcesOf (s.floatingIpSteps (s.instanceName i) n) =
      s.floatingIpResources (s.instanceName i) n := by
    unfold floatingIpSteps floatingIpResources
    cases s.floatingIp.filter fun f => f.network == n.name <;> rfl
  simp [portSteps, hnote, hfloating]

theorem resourcesOf_instanceSteps (s : Server) (networks : List Network) (hints : Hints) (i : Nat) :
    resourcesOf (s.instanceSteps networks hints i) =
      resourcesOf (s.volumeSteps (s.instanceName i)) ++
      networks.flatMap (fun n => s.portResource n (portName (s.instanceName i) n.name) ::
        s.floatingIpResources (s.instanceName i) n) ++
      [s.instanceResource networks hints (s.instanceName i)] ++
      resourcesOf (s.attachmentSteps (s.instanceName i)) := by
  simp [instanceSteps, resourcesOf_portSteps]

theorem resourcesOf_steps (s : Server) (networks : List Network) (hints : Hints) :
    resourcesOf (s.steps networks hints) = resourcesOf s.flavorSteps ++
      (List.range s.instances).flatMap fun i =>
        resourcesOf (s.instanceSteps (s.attached networks) hints i) := by
  simp [steps]

theorem entries_floatingIpResources (s : Server) (inst : String) (n : Network) :
    (s.floatingIpResources inst n).map Resource.entry =
      if s.floatingIp.any fun f => f.network = n.name then
        [(floatingIpName inst, .floatingIp), (associationName inst, .floatingIpAssociation)]
      else [] := by
  cases hf : s.floatingIp with
  | none => simp [floatingIpResources, hf]
  | some f => by_cases hn : f.network = n.name <;>
      simp [floatingIpResources, hf, hn, Option.filter, Resource.entry, floatingIpResource,
        associationResource]

theorem entries_volumeSteps (s : Server) (inst : String) :
    (resourcesOf (s.volumeSteps inst)).map Resource.entry =
      if s.makesVolume then [(volumeName inst, .volume)] else [] := by
  rcases hv : s.declared.volume with _ | id | size <;>
    simp [volumeSteps, makesVolume, hv, Resource.entry, volumeResource]

theorem entries_attachmentSteps (s : Server) (inst : String) :
    (resourcesOf (s.attachmentSteps inst)).map Resource.entry =
      if s.declared.volume.isSome then [(attachmentName inst, .volumeAttachment)] else [] := by
  rcases hv : s.declared.volume with _ | id | size <;>
    simp [attachmentSteps, hv, Resource.entry, attachmentResource]

theorem entries_flavorSteps (s : Server) :
    (resourcesOf s.flavorSteps).map Resource.entry =
      if s.makesFlavor then [(s.flavorName, .flavor)] else [] := by
  rcases hf : s.flavor with _ | name | f <;>
    simp [flavorSteps, makesFlavor, hf, Resource.entry, flavorResource]

theorem entries_instanceSteps (s : Server) (networks : List Network) (hints : Hints) (i : Nat)
    (hn : networks.map Network.name = s.networks) :
    (resourcesOf (s.instanceSteps networks hints i)).map Resource.entry = s.instancePlan i := by
  have hports : (networks.flatMap fun n => s.portResource n (portName (s.instanceName i) n.name) ::
      s.floatingIpResources (s.instanceName i) n).map Resource.entry =
        s.networks.flatMap (s.portPlan (s.instanceName i)) := by
    rw [← hn, List.map_flatMap, List.flatMap_map]
    refine List.flatMap_congr fun n _ => ?_
    rw [List.map_cons, entries_floatingIpResources]
    rfl
  rw [resourcesOf_instanceSteps, List.map_append, List.map_append, List.map_append,
    entries_volumeSteps, entries_attachmentSteps, hports]
  rfl

theorem entries_steps (s : Server) (networks : List Network) (hints : Hints)
    (hn : (s.attached networks).map Network.name = s.networks) :
    (resourcesOf (s.steps networks hints)).map Resource.entry = s.plan := by
  rw [resourcesOf_steps, List.map_append, entries_flavorSteps, List.map_flatMap, plan]
  simp only [entries_instanceSteps s _ hints _ hn]

end Server

namespace Topology
variable {t : Topology}

theorem entries_serverSteps {servers : List Server} (h : t.WellFormed) (hs : servers ⊆ t.servers)
    (placed : List String) :
    (resourcesOf (t.serverSteps placed servers)).map Resource.entry = servers.flatMap Server.plan := by
  induction servers generalizing placed with
  | nil => rfl
  | cons s rest ih =>
    obtain ⟨hs, hrest⟩ := List.cons_subset.mp hs
    rw [serverSteps, resourcesOf_append, List.map_append, ih hrest,
      Server.entries_steps s _ _ (h.attached_names hs), List.flatMap_cons]

/-- The steps of servers placed one after another, told apart at one of them. -/
theorem serverSteps_append (placed : List String) (a b : List Server) :
    t.serverSteps placed (a ++ b) =
      t.serverSteps placed a ++ t.serverSteps (placed ++ a.map Server.resourceName) b := by
  induction a generalizing placed with
  | nil => simp [serverSteps]
  | cons s rest ih => simp [serverSteps, ih]

/-- What servers become is what each of them becomes, with hints that look at those placed before it. -/
theorem mem_serverSteps {placed : List String} {servers : List Server} {r : Resource} :
    r ∈ resourcesOf (t.serverSteps placed servers) ↔ ∃ before s after, servers = before ++ s :: after ∧
      r ∈ resourcesOf (s.steps t.networks
        (Hints.forServer t (placed ++ before.map Server.resourceName) s)) := by
  constructor
  · intro hr
    induction servers generalizing placed with
    | nil => cases hr
    | cons s rest ih =>
      rw [serverSteps, resourcesOf_append] at hr
      rcases List.mem_append.mp hr with hr | hr
      · exact ⟨[], s, rest, rfl, by simpa using hr⟩
      · obtain ⟨before, u, after, rfl, hu⟩ := ih hr
        exact ⟨s :: before, u, after, rfl, by simpa using hu⟩
  · rintro ⟨before, s, after, rfl, hr⟩
    rw [serverSteps_append, serverSteps, resourcesOf_append, resourcesOf_append]
    exact List.mem_append_right _ (List.mem_append_left _ hr)

/-- The steps before those of the servers. -/
def baseSteps (t : Topology) : List Step :=
  t.keypairSteps ++ t.securityGroupSteps ++
    (t.serverGroups.filter fun g => !g.members.isEmpty).map serverGroupStep ++
    t.networks.flatMap Network.steps

theorem steps_eq (t : Topology) : t.steps = t.baseSteps ++ t.serverSteps [] t.placementOrder := rfl

theorem resourcesOf_serverGroupSteps (gs : List ServerGroup) :
    (resourcesOf (gs.map serverGroupStep)).map Resource.entry =
      gs.map fun g => (g.resourceName, .serverGroup) := by
  induction gs with
  | nil => rfl
  | cons g gs ih => simp [serverGroupStep, Resource.entry, ih]

theorem entries_baseSteps (t : Topology) : (resourcesOf t.baseSteps).map Resource.entry = t.basePlan := by
  have hkey : (resourcesOf t.keypairSteps).map Resource.entry = [(t.keypair, .keyPair)] := by
    unfold keypairSteps
    split <;> rfl
  have hgroup : (resourcesOf t.securityGroupSteps).map Resource.entry =
      [(t.securityGroup, .securityGroup)] := rfl
  simp only [baseSteps, basePlan, resourcesOf_append, List.map_append, resourcesOf_flatMap,
    List.map_flatMap, hkey, hgroup, resourcesOf_serverGroupSteps, Network.entries_steps]
  rfl

/-- The steps of a layout declare what the plan says, in its order. -/
theorem entries_steps (h : t.WellFormed) : (resourcesOf t.steps).map Resource.entry = t.plan := by
  rw [steps_eq, resourcesOf_append, List.map_append, entries_baseSteps,
    entries_serverSteps h fun s hs => mem_placementOrder.mp hs]
  rfl

theorem names_nodup (h : t.WellFormed) (hn : (t.plan.map Prod.fst).Nodup) :
    ((resourcesOf t.steps).map Resource.name).Nodup := by
  rwa [map_name_eq, entries_steps h]

end Topology
end Provision
