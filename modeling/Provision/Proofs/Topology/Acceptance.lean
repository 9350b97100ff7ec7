import Provision.Context
import Provision.Proofs.Topology.WellFormed

/-! Which declarations are accepted. The faults of a declaration are listed without building anything from
it, all of them, in the order in which they are looked for: building stops at the first one, and a
declaration without faults is built. -/
namespace Provision

def GroupDeclaration.faults (kind : GroupKind) (policies : List String) (g : GroupDeclaration) :
    List TopologyError :=
  if g.policy ∈ policies then [] else [.invalidPolicy kind g.policy]

theorem GroupDeclaration.faults_eq_nil_iff (kind : GroupKind) (policies : List String)
    (g : GroupDeclaration) : g.faults kind policies = [] ↔ g.policy ∈ policies := by
  simp [faults]

namespace NetworkDeclaration

def segmentationFaults (n : NetworkDeclaration) : List TopologyError :=
  match n.segmentationId with
  | some id => if 1 ≤ id.toNat ∧ id.toNat ≤ 4094 then [] else [.invalidSegmentationId id]
  | none => []

def cidrFaults (n : NetworkDeclaration) : List TopologyError :=
  if (Cidr.read? n.cidr).isSome then [] else [.invalidCidr n.cidr]

theorem segmentationFaults_eq_nil_iff (n : NetworkDeclaration) : n.segmentationFaults = [] ↔
    ∀ id ∈ n.segmentationId, 1 ≤ id.toNat ∧ id.toNat ≤ 4094 := by
  unfold segmentationFaults
  cases n.segmentationId <;> simp

theorem cidrFaults_eq_nil_iff (n : NetworkDeclaration) :
    n.cidrFaults = [] ↔ (Cidr.read? n.cidr).isSome = true := by
  simp [cidrFaults, Option.isSome_iff_ne_none]

/-- The names of the resources that a network of this name becomes. -/
def resourceNames (context name : String) (n : NetworkDeclaration) : List String :=
  let network := context ++ "-" ++ name
  [network, network ++ "-subnet"] ++
    if n.externalNetwork.isSome then [network ++ "-router", network ++ "-router-if0"] else []

end NetworkDeclaration

/-- The placement groups that a server names. -/
def ServerDeclaration.placementGroups (s : ServerDeclaration) : List String :=
  (s.placement.map NameList.toList).getD []

namespace ContextDeclaration
variable (d : ContextDeclaration)

/-- The external network of the first network that has one. -/
def firstExternal? : Option String := d.networks.values.findSome? NetworkDeclaration.externalNetwork

/-- The networks that a server asks for, all of them if it names none. -/
def attached (s : ServerDeclaration) : List String := s.networks.getD d.networks.keys

/-- One of the server's networks has a router to the external network. -/
def Reaches (s : ServerDeclaration) (external : String) : Prop :=
  ∃ name ∈ d.attached s, ∃ n, d.networks.find? name = some n ∧ n.externalNetwork = some external

instance (s : ServerDeclaration) (external : String) : Decidable (d.Reaches s external) :=
  decidable_of_iff ((d.attached s).any fun name =>
    (d.networks.find? name).any fun n => n.externalNetwork = some external) (by
      simp [Reaches, Option.any_eq_true])

def networkResources : List String :=
  d.networks.entries.flatMap fun e => e.2.resourceNames d.name e.1

def nameFaults : List TopologyError := if d.name = "" then [.emptyContextName] else []

/-- A server group may not be called as a resource of a network is. -/
def clashFaults : List TopologyError :=
  ((d.serverGroups.keys.map (d.name ++ "-" ++ ·)).filter (· ∈ d.networkResources)).map
    (.duplicate .resourceName)

def floatingIpFaults (dn : String) (s : ServerDeclaration) : List TopologyError :=
  if s.floatingIp = true then
    match d.firstExternal? with
    | none => [.noExternalNetwork dn d.name]
    | some external => if d.Reaches s external then [] else [.noRouteToExternal dn external]
  else []

/-- The number of instances, the networks, and then the floating address. -/
def instanceFaults (dn : String) (s : ServerDeclaration) : List TopologyError :=
  (if s.instances = 0 then [.noInstances dn] else []) ++
  (((s.networks.getD []).filter (· ∉ d.networks.keys)).map (.unknownNetwork dn) ++
  d.floatingIpFaults dn s)

/-- The placement groups, and then the server group. -/
def membershipFaults (dn : String) (s : ServerDeclaration) : List TopologyError :=
  (s.placementGroups.filter (· ∉ d.placementGroups.keys)).map (.unknownPlacementGroup dn) ++
  (s.serverGroup.toList.filter (· ∉ d.serverGroups.keys)).map (.unknownServerGroup dn)

def serverFaults (name : String) (s : ServerDeclaration) : List TopologyError :=
  d.instanceFaults (name ++ "." ++ d.name) s ++ d.membershipFaults (name ++ "." ++ d.name) s

/-- Everything that is wrong with a declaration: its name, the policies of placement groups and of server
groups, its networks, clashes of names, and its servers. -/
def faults : List TopologyError :=
  d.nameFaults ++
  (d.placementGroups.values.flatMap (GroupDeclaration.faults .placement ["availability", "affinity"]) ++
  (d.serverGroups.values.flatMap (GroupDeclaration.faults .server ["affinity", "anti-affinity"]) ++
  (d.networks.values.flatMap (fun n => n.segmentationFaults ++ n.cidrFaults) ++
  (d.clashFaults ++ d.servers.entries.flatMap fun e => d.serverFaults e.1 e.2))))

/-- What a declaration has to be to make sense. -/
structure Acceptable : Prop where
  named : d.name ≠ ""
  placementPolicies : ∀ g ∈ d.placementGroups.values, g.policy ∈ ["availability", "affinity"]
  serverGroupPolicies : ∀ g ∈ d.serverGroups.values, g.policy ∈ ["affinity", "anti-affinity"]
  segmentationIds : ∀ n ∈ d.networks.values, ∀ id ∈ n.segmentationId, 1 ≤ id.toNat ∧ id.toNat ≤ 4094
  cidrs : ∀ n ∈ d.networks.values, (Cidr.read? n.cidr).isSome = true
  namesApart : ∀ g ∈ d.serverGroups.keys, d.name ++ "-" ++ g ∉ d.networkResources
  instances : ∀ s ∈ d.servers.values, s.instances ≠ 0
  networks : ∀ s ∈ d.servers.values, ∀ names ∈ s.networks, names ⊆ d.networks.keys
  placementGroups : ∀ s ∈ d.servers.values, s.placementGroups ⊆ d.placementGroups.keys
  serverGroups : ∀ s ∈ d.servers.values, ∀ group ∈ s.serverGroup, group ∈ d.serverGroups.keys
  floatingIps : ∀ s ∈ d.servers.values, s.floatingIp = true →
    ∃ external, d.firstExternal? = some external ∧ d.Reaches s external

theorem nameFaults_eq_nil_iff : d.nameFaults = [] ↔ d.name ≠ "" := by
  simp [nameFaults]

theorem clashFaults_eq_nil_iff :
    d.clashFaults = [] ↔ ∀ g ∈ d.serverGroups.keys, d.name ++ "-" ++ g ∉ d.networkResources := by
  simp [clashFaults]

theorem floatingIpFaults_eq_nil_iff (dn : String) (s : ServerDeclaration) :
    d.floatingIpFaults dn s = [] ↔
      (s.floatingIp = true → ∃ external, d.firstExternal? = some external ∧ d.Reaches s external) := by
  unfold floatingIpFaults
  cases d.firstExternal? <;> simp

theorem serverFaults_eq_nil_iff (name : String) (s : ServerDeclaration) :
    d.serverFaults name s = [] ↔
      (s.instances ≠ 0 ∧ (∀ names ∈ s.networks, names ⊆ d.networks.keys) ∧
        (s.floatingIp = true → ∃ external, d.firstExternal? = some external ∧ d.Reaches s external)) ∧
      s.placementGroups ⊆ d.placementGroups.keys ∧
      ∀ group ∈ s.serverGroup, group ∈ d.serverGroups.keys := by
  simp only [serverFaults, instanceFaults, membershipFaults, List.append_eq_nil_iff,
    List.map_eq_nil_iff, List.filter_eq_nil_iff, floatingIpFaults_eq_nil_iff]
  refine and_congr (and_congr (by simp) (and_congr_left' ?_)) (and_congr ?_ ?_)
  · cases s.networks <;> simp [List.subset_def]
  · simp [List.subset_def]
  · simp

/-- A declaration without faults is one that makes sense. -/
theorem faults_eq_nil_iff : d.faults = [] ↔ d.Acceptable := by
  simp only [faults, List.append_eq_nil_iff, List.flatMap_eq_nil_iff, nameFaults_eq_nil_iff,
    GroupDeclaration.faults_eq_nil_iff, NetworkDeclaration.segmentationFaults_eq_nil_iff,
    NetworkDeclaration.cidrFaults_eq_nil_iff, clashFaults_eq_nil_iff, serverFaults_eq_nil_iff]
  constructor
  · rintro ⟨hname, hplacement, hgroups, hnetworks, hclash, hentries⟩
    exact {
      named := hname
      placementPolicies := hplacement
      serverGroupPolicies := hgroups
      segmentationIds := fun n hn => (hnetworks n hn).1
      cidrs := fun n hn => (hnetworks n hn).2
      namesApart := hclash
      instances := List.forall_mem_map.mpr fun e he => (hentries e he).1.1
      networks := List.forall_mem_map.mpr fun e he => (hentries e he).1.2.1
      floatingIps := List.forall_mem_map.mpr fun e he => (hentries e he).1.2.2
      placementGroups := List.forall_mem_map.mpr fun e he => (hentries e he).2.1
      serverGroups := List.forall_mem_map.mpr fun e he => (hentries e he).2.2 }
  · intro h
    refine ⟨h.named, h.placementPolicies, h.serverGroupPolicies,
      fun n hn => ⟨h.segmentationIds n hn, h.cidrs n hn⟩, h.namesApart, fun e he => ?_⟩
    have hs : e.2 ∈ d.servers.values := List.mem_map_of_mem he
    exact ⟨⟨h.instances e.2 hs, h.networks e.2 hs, h.floatingIps e.2 hs⟩,
      h.placementGroups e.2 hs, h.serverGroups e.2 hs⟩

end ContextDeclaration

/-! Building finds the faults, part by part. -/

open Checks (Finds)

theorem PlacementPolicy.finds (text : String) : Finds (read text)
    (GroupDeclaration.faults .placement ["availability", "affinity"] ⟨text⟩) := by
  unfold read GroupDeclaration.faults
  split
  · simp [*, Finds]
  · split <;> simp [*, Finds]

theorem ServerGroupPolicy.finds (text : String) : Finds (read text)
    (GroupDeclaration.faults .server ["affinity", "anti-affinity"] ⟨text⟩) := by
  unfold read GroupDeclaration.faults
  split
  · simp [*, Finds]
  · split <;> simp [*, Finds]

theorem buildGroups_finds {π : Type} {read : String → Except TopologyError π}
    {faults : GroupDeclaration → List TopologyError} (h : ∀ text, Finds (read text) (faults ⟨text⟩))
    (context : String) (groups : OrderedMap GroupDeclaration) :
    Finds (buildGroups read context groups) (groups.values.flatMap faults) := by
  rw [OrderedMap.values, List.flatMap_map]
  refine Finds.mapM fun e _ => ?_
  exact (h e.2.policy).bind_ok fun policy => ⟨{ name := e.1, context, policy }, rfl⟩

theorem SegmentationId.finds (id : UInt32) : Finds (ofId id)
    (if 1 ≤ id.toNat ∧ id.toNat ≤ 4094 then [] else [.invalidSegmentationId id]) := by
  unfold ofId
  by_cases h : 1 ≤ id.toNat ∧ id.toNat ≤ 4094
  · rw [dif_pos h, if_pos h]
    exact Finds.ok _
  · rw [dif_neg h, if_neg h]
    exact Finds.error _ []

theorem Network.build_finds (context name : String) (n : NetworkDeclaration) :
    Finds (Network.build context name n) (n.segmentationFaults ++ n.cidrFaults) := by
  refine Finds.bind ?_ fun id _ => ?_
  · unfold NetworkDeclaration.segmentationFaults
    cases n.segmentationId with
    | none => exact Finds.ok _
    | some id => exact (SegmentationId.finds id).map
  · unfold NetworkDeclaration.cidrFaults
    cases Cidr.read? n.cidr with
    | none => exact Finds.error _ []
    | some cidr => exact Finds.ok _

theorem attachedNames_finds {networks : List Network} {known : List String}
    (hk : networks.map Network.name = known) (dn : String) (wanted : Option (List String)) :
    Finds (attachedNames dn networks wanted)
      (((wanted.getD []).filter (· ∉ known)).map (.unknownNetwork dn)) := by
  cases wanted with
  | none => exact Finds.ok _
  | some names =>
    have hfilter : names.filter (· ∉ known) =
        names.filter fun name => !(networks.any fun n => n.name == name) := by
      refine List.filter_congr fun name _ => ?_
      subst hk
      rw [Bool.eq_iff_iff]
      simp
    rw [Option.getD_some, hfilter]
    exact Finds.search (fun unknown h => by simp only [attachedNames, h])
      fun h => ⟨names, by simp only [attachedNames, h]⟩

/-! Where networks stand for those that were declared. -/

section Networks
variable {d : ContextDeclaration} {networks : List Network}

theorem Network.resourceNames_declared (n : Network) :
    n.resourceNames = n.declared.resourceNames n.context n.name := by
  have hif : "-router" ++ "-if0" = "-router-if0" := rfl
  cases he : n.declared.externalNetwork <;>
    simp [Network.resourceNames, NetworkDeclaration.resourceNames, Network.router?, he,
      Network.resourceName, Network.subnetName, Router.resourceName, Router.interfaceName,
      String.append_assoc, hif]

theorem keys_of_entries (h : d.networks.entries = networks.map fun n => (n.name, n.declared)) :
    networks.map Network.name = d.networks.keys := by
  rw [OrderedMap.keys, h, List.map_map]
  rfl

theorem firstExternal?_of_entries
    (h : d.networks.entries = networks.map fun n => (n.name, n.declared)) :
    d.firstExternal? = firstExternal? networks := by
  rw [ContextDeclaration.firstExternal?, OrderedMap.values, h, List.map_map, List.findSome?_map]
  rfl

theorem find?_of_entries (h : d.networks.entries = networks.map fun n => (n.name, n.declared))
    (name : String) :
    d.networks.find? name = (networks.find? fun n => n.name == name).map Network.declared := by
  rw [OrderedMap.find?, h, List.find?_map, Option.map_map]
  rfl

theorem floatingIpFor_finds (h : d.networks.entries = networks.map fun n => (n.name, n.declared))
    (dn : String) {s : ServerDeclaration} (hs : s.floatingIp = true) :
    Finds (floatingIpFor dn d.name networks (d.attached s)) (d.floatingIpFaults dn s) := by
  unfold ContextDeclaration.floatingIpFaults floatingIpFor
  rw [if_pos hs, firstExternal?_of_entries h]
  cases firstExternal? networks with
  | none => exact Finds.error _ []
  | some external =>
    dsimp only
    split
    · next n hn =>
      obtain ⟨name, hname, hfound⟩ := List.mem_filterMap.mp (List.mem_of_find?_eq_some hn)
      have hroute : n.declared.externalNetwork = some external := by
        simpa [Network.hasRouteTo] using List.find?_some hn
      rw [if_pos ⟨name, hname, n.declared, by rw [find?_of_entries h, hfound]; rfl, hroute⟩]
      exact Finds.ok _
    · next hnone =>
      have hreaches : ¬ d.Reaches s external := by
        rintro ⟨name, hname, nd, hfound, hroute⟩
        rw [find?_of_entries h] at hfound
        obtain ⟨n, hn, rfl⟩ := Option.map_eq_some_iff.mp hfound
        have hno := List.find?_eq_none.mp hnone n (List.mem_filterMap.mpr ⟨name, hname, hn⟩)
        simp [Network.hasRouteTo, hroute] at hno
      rw [if_neg hreaches]
      exact Finds.error _ []

theorem Server.build_finds (h : d.networks.entries = networks.map fun n => (n.name, n.declared))
    {defaults : ServerDefaults} (hc : defaults.context = d.name) (name : String) (s : ServerDeclaration) :
    Finds (Server.build defaults networks name s) (d.instanceFaults (name ++ "." ++ d.name) s) := by
  dsimp only [Server.build, ContextDeclaration.instanceFaults]
  rw [hc]
  by_cases hi : s.instances = 0
  · rw [if_pos hi, if_pos hi]
    exact Finds.error _ _
  · rw [if_neg hi, if_neg hi, List.nil_append]
    refine Finds.bind (attachedNames_finds (keys_of_entries h) _ _) fun attached ha => ?_
    obtain ⟨rfl, -⟩ := attachedNames_ok ha
    rw [keys_of_entries h]
    by_cases hf : s.floatingIp = true
    · rw [if_pos hf]
      exact (floatingIpFor_finds h _ hf).map.bind_ok fun _ => ⟨_, rfl⟩
    · rw [if_neg hf, ContextDeclaration.floatingIpFaults, if_neg hf]
      exact Finds.ok _

end Networks

namespace Topology

theorem checkGroupNames_finds (groups : List ServerGroup) (networks : List Network) :
    Finds (checkGroupNames groups networks) (((groups.map Group.resourceName).filter
      (· ∈ networks.flatMap Network.resourceNames)).map (.duplicate .resourceName)) := by
  have hfilter : groups.filter ((fun name => decide (name ∈ networks.flatMap Network.resourceNames)) ∘
      Group.resourceName) =
      groups.filter fun g => (networks.flatMap Network.resourceNames).contains g.resourceName := by
    refine List.filter_congr fun g _ => ?_
    simp
  rw [List.filter_map, List.map_map, hfilter]
  exact Finds.search (fun g h => by simp only [checkGroupNames, h, Function.comp_apply])
    fun h => ⟨(), by simp only [checkGroupNames, h]⟩

theorem join?_eq_none {π : Type} {group member : String} {gs : List (Group π)} :
    join? group member gs = none ↔ group ∉ gs.map Group.name := by
  induction gs with
  | nil => simp [join?]
  | cons g rest ih =>
    by_cases hg : g.name = group
    · simp [join?, hg]
    · simp [join?, hg, ih, Ne.symm hg]

theorem joinPlacement_finds (s : Server) {gs : List PlacementGroup} (hn : (gs.map Group.name).Nodup) :
    Finds (joinPlacement s gs) ((s.placementGroups.filter (· ∉ gs.map Group.name)).map
      (.unknownPlacementGroup s.dn)) := by
  rw [Checks.map_filter_eq_flatMap]
  refine Finds.foldlM (fun _ (now : List PlacementGroup) => now.map Group.name = gs.map Group.name)
    rfl ?_ ?_
  · intro done name now now' hnow hstep
    split at hstep
    · next next hjoin =>
      cases hstep
      obtain ⟨-, rfl⟩ := join?_some (hnow ▸ hn) hjoin
      rw [map_name_enroll, hnow]
    · cases hstep
  · intro done name now hnow
    cases hjoin : join? name s.resourceName now with
    | none =>
      rw [if_pos (by simpa [← hnow] using join?_eq_none.mp hjoin)]
      exact Finds.error _ []
    | some now' =>
      rw [if_neg (by simpa [← hnow] using (join?_some (hnow ▸ hn) hjoin).1)]
      exact Finds.ok now'

theorem joinServerGroup_finds (s : Server) {gs : List ServerGroup} (hn : (gs.map Group.name).Nodup) :
    Finds (joinServerGroup s gs) ((s.serverGroup.toList.filter (· ∉ gs.map Group.name)).map
      (.unknownServerGroup s.dn)) := by
  unfold joinServerGroup
  cases s.serverGroup with
  | none => exact Finds.ok gs
  | some name =>
    dsimp only
    cases hjoin : join? name s.resourceName gs with
    | none =>
      rw [Option.toList_some, List.filter_cons_of_pos (by simpa using join?_eq_none.mp hjoin)]
      exact Finds.error _ []
    | some gs' =>
      rw [Option.toList_some, List.filter_cons_of_neg (by simpa using (join?_some hn hjoin).1)]
      exact Finds.ok gs'

variable {t : Topology} {entries : List (String × ServerDeclaration)}

theorem Holds.networkEntries (h : t.Holds entries) :
    t.declared.networks.entries = t.networks.map fun n => (n.name, n.declared) := by
  refine (List.map_id _).symm.trans (Checks.map_eq_of_forall₂ h.networks fun e n hn => ?_)
  obtain ⟨hname, -, hdeclared⟩ := Network.build_ok hn
  exact Prod.ext hname.symm hdeclared.symm

theorem addServer_finds (h : t.Holds entries) (name : String) (s : ServerDeclaration) :
    Finds (t.addServer name s) (t.declared.serverFaults name s) := by
  have hpn : (t.placementGroups.map Group.name).Nodup :=
    h.placementGroupNames ▸ t.declared.placementGroups.nodup
  have hgn : (t.serverGroups.map Group.name).Nodup :=
    h.serverGroupNames ▸ t.declared.serverGroups.nodup
  refine Finds.bind (Server.build_finds h.networkEntries rfl name s) fun server hserver => ?_
  obtain ⟨hname, hcontext, hdeclared, -, -, -⟩ := Server.build_ok hserver
  have hdn : name ++ "." ++ t.declared.name = server.dn := by
    rw [Server.dn, hname, hcontext]
    rfl
  have hplacement : s.placementGroups = server.placementGroups := by
    rw [Server.placementGroups, hdeclared]
    cases hp : s.placement <;> simp [ServerDeclaration.placementGroups, hp]
  have hgroup : s.serverGroup = server.serverGroup := by rw [Server.serverGroup, hdeclared]
  rw [ContextDeclaration.membershipFaults, hdn, hplacement, hgroup, ← h.placementGroupNames,
    ← h.serverGroupNames]
  refine Finds.bind (joinPlacement_finds server hpn) fun pgs _ => ?_
  exact (joinServerGroup_finds server hgn).bind_ok fun sgs => ⟨_, rfl⟩

theorem checkNames_finds {d : ContextDeclaration} {groups : List ServerGroup} {networks : List Network}
    (hg : buildGroups ServerGroupPolicy.read d.name d.serverGroups = .ok groups)
    (hn : List.Forall₂ (fun e n => Network.build d.name e.1 e.2 = .ok n) d.networks.entries networks) :
    Finds (checkGroupNames groups networks) d.clashFaults := by
  obtain ⟨hnames, hcontext⟩ := buildGroups_ok hg
  have hgroups : groups.map Group.resourceName = d.serverGroups.keys.map (d.name ++ "-" ++ ·) := by
    rw [← hnames, List.map_map]
    refine List.map_congr_left fun g hm => ?_
    rw [Group.resourceName, (hcontext g hm).1]
    rfl
  have hnetworks : d.networkResources = networks.flatMap Network.resourceNames := by
    rw [ContextDeclaration.networkResources, List.flatMap_def, List.flatMap_def]
    refine congrArg List.flatten (Checks.map_eq_of_forall₂ hn fun e n he => ?_)
    obtain ⟨hname, hcontext, hdeclared⟩ := Network.build_ok he
    rw [← hname, ← hcontext, ← hdeclared, n.resourceNames_declared]
  rw [ContextDeclaration.clashFaults, hnetworks, ← hgroups]
  exact checkGroupNames_finds groups networks

/-- Building a topology stops at the first fault of the declaration. -/
theorem build_finds (d : ContextDeclaration) : Finds (Topology.build d) d.faults := by
  dsimp only [Topology.build, ContextDeclaration.faults, ContextDeclaration.nameFaults]
  by_cases hname : d.name = ""
  · rw [if_pos hname, if_pos hname]
    exact Finds.error _ _
  · rw [if_neg hname, if_neg hname, List.nil_append]
    refine Finds.bind (buildGroups_finds PlacementPolicy.finds _ _) fun pgs hp => ?_
    refine Finds.bind (buildGroups_finds ServerGroupPolicy.finds _ _) fun sgs hg => ?_
    refine Finds.bind ?_ fun ns hn => Finds.bind ?_ fun _ ha => ?_
    · rw [OrderedMap.values, List.flatMap_map]
      exact Finds.mapM fun e _ => Network.build_finds d.name e.1 e.2
    · exact checkNames_finds hg (Checks.mapM_ok hn)
    · refine Finds.foldlM (fun done (t : Topology) => t.declared = d ∧ t.Holds done)
        ⟨rfl, holds_start hname hp hg hn ha⟩ ?_ ?_
      · rintro done e t t' ⟨rfl, ht⟩ hstep
        exact ht.addServer hstep
      · rintro done e t ⟨rfl, ht⟩
        exact addServer_finds ht e.1 e.2

end Topology

/-- A context is built from exactly those declarations that make sense, and of any other the error is the
first of its faults. -/
theorem Context.build_accepts (d : ContextDeclaration) :
    ((∃ c, Context.build d = .ok c) ↔ d.Acceptable) ∧
      ∀ e, Context.build d = .error e ↔ d.faults.head? = some e := by
  have hfinds : Finds (Context.build d) d.faults := (Topology.build_finds d).map
  exact ⟨hfinds.isOk_iff.trans d.faults_eq_nil_iff, hfinds.error_iff⟩

end Provision
