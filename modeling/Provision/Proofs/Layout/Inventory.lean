import Provision.Proofs.Layout.Resolution
import Provision.Proofs.Placement.InstanceHints

/-! What a layout declares, told resource by resource. Every resource is of a shape that its kind fixes, and
refers only to resources of kinds that its own kind allows. -/
namespace Provision

open Json

namespace ResourceKind

/-- The kinds of the resources that servers bring with them. -/
def ofServer : ResourceKind → Bool
  | port | floatingIp | floatingIpAssociation | server | flavor | volume | volumeAttachment => true
  | _ => false

/-- The kinds of the resources that a resource of the kind may refer to. -/
def wants : ResourceKind → List ResourceKind
  | subnet => [network, providerNetwork]
  | router => [subnet]
  | routerInterface => [router, subnet]
  | port => [network, providerNetwork, subnet, securityGroup]
  | floatingIp => [routerInterface]
  | floatingIpAssociation => [floatingIp, port]
  | server => [keyPair, flavor, port, server, serverGroup]
  | volumeAttachment => [server, volume]
  | _ => []

end ResourceKind

/-! The resources of a server. -/

/-- A resource that a server becomes, on the networks it is attached to and with its hints. -/
inductive Server.Declares (s : Server) (networks : List Network) (hints : Hints) : Resource → Prop
  | flavor {f : InlineFlavor} (hf : s.flavor = some (.inline f)) :
    s.Declares networks hints (s.flavorResource f)
  | volume {i : ℕ} {size : UInt32} (hi : i < s.instances) (hv : s.declared.volume = some (.inline size)) :
    s.Declares networks hints (volumeResource (s.instanceName i) size)
  | port {i : ℕ} {n : Network} (hi : i < s.instances) (hn : n ∈ networks) :
    s.Declares networks hints (s.portResource n (portName (s.instanceName i) n.name))
  | floatingIp {i : ℕ} {n : Network} {f : FloatingIp} (hi : i < s.instances) (hn : n ∈ networks)
      (hf : s.floatingIp = some f) (hname : f.network = n.name) :
    s.Declares networks hints (floatingIpResource (s.instanceName i) f n)
  | association {i : ℕ} {n : Network} {f : FloatingIp} (hi : i < s.instances) (hn : n ∈ networks)
      (hf : s.floatingIp = some f) (hname : f.network = n.name) :
    s.Declares networks hints
      (associationResource (s.instanceName i) (portName (s.instanceName i) n.name))
  | server {i : ℕ} (hi : i < s.instances) :
    s.Declares networks hints (s.instanceResource networks hints (s.instanceName i))
  | attachMade {i : ℕ} {size : UInt32} (hi : i < s.instances)
      (hv : s.declared.volume = some (.inline size)) :
    s.Declares networks hints (s.attachmentResource (s.instanceName i)
      (resourceRef (volumeName (s.instanceName i))) [volumeName (s.instanceName i)])
  | attachExisting {i : ℕ} {id : String} (hi : i < s.instances)
      (hv : s.declared.volume = some (.existing id)) :
    s.Declares networks hints (s.attachmentResource (s.instanceName i) (str id) [])

namespace Server
variable {s : Server} {networks : List Network} {hints : Hints} {inst : String} {r : Resource}

theorem mem_flavorSteps : r ∈ resourcesOf s.flavorSteps ↔
    ∃ f, s.flavor = some (.inline f) ∧ r = s.flavorResource f := by
  rcases hf : s.flavor with _ | name | f <;> simp [flavorSteps, hf]

theorem mem_volumeSteps : r ∈ resourcesOf (s.volumeSteps inst) ↔
    ∃ size, s.declared.volume = some (.inline size) ∧ r = volumeResource inst size := by
  rcases hv : s.declared.volume with _ | id | size <;> simp [volumeSteps, hv]

theorem mem_attachmentSteps : r ∈ resourcesOf (s.attachmentSteps inst) ↔
    (∃ size, s.declared.volume = some (.inline size) ∧
      r = s.attachmentResource inst (resourceRef (volumeName inst)) [volumeName inst]) ∨
    ∃ id, s.declared.volume = some (.existing id) ∧ r = s.attachmentResource inst (str id) [] := by
  rcases hv : s.declared.volume with _ | id | size <;> simp [attachmentSteps, hv]

theorem mem_floatingIpResources {n : Network} : r ∈ s.floatingIpResources inst n ↔
    ∃ f, (s.floatingIp = some f ∧ f.network = n.name) ∧
      (r = floatingIpResource inst f n ∨ r = associationResource inst (portName inst n.name)) := by
  rcases hf : s.floatingIp with _ | f
  · simp [floatingIpResources, hf]
  · by_cases hname : f.network = n.name <;> simp [floatingIpResources, hf, hname, Option.filter]

/-- The steps of a server declare what the server becomes, and nothing else. -/
theorem mem_resourcesOf_steps :
    r ∈ resourcesOf (s.steps networks hints) ↔ s.Declares (s.attached networks) hints r := by
  simp only [resourcesOf_steps, resourcesOf_instanceSteps, List.mem_append, List.mem_flatMap,
    List.mem_range, List.mem_cons, List.not_mem_nil, or_false, mem_flavorSteps, mem_volumeSteps,
    mem_attachmentSteps, mem_floatingIpResources]
  constructor
  · rintro (⟨f, hf, rfl⟩ | ⟨i, hi, ((⟨size, hv, rfl⟩ | ⟨n, hn, rfl | ⟨f, ⟨hf, hname⟩, rfl | rfl⟩⟩) |
      rfl) | ⟨size, hv, rfl⟩ | ⟨id, hv, rfl⟩⟩)
    · exact .flavor hf
    · exact .volume hi hv
    · exact .port hi hn
    · exact .floatingIp hi hn hf hname
    · exact .association hi hn hf hname
    · exact .server hi
    · exact .attachMade hi hv
    · exact .attachExisting hi hv
  · intro h
    cases h with
    | flavor hf => exact .inl ⟨_, hf, rfl⟩
    | volume hi hv => exact .inr ⟨_, hi, .inl (.inl (.inl ⟨_, hv, rfl⟩))⟩
    | port hi hn => exact .inr ⟨_, hi, .inl (.inl (.inr ⟨_, hn, .inl rfl⟩))⟩
    | floatingIp hi hn hf hname =>
      exact .inr ⟨_, hi, .inl (.inl (.inr ⟨_, hn, .inr ⟨_, ⟨hf, hname⟩, .inl rfl⟩⟩))⟩
    | association hi hn hf hname =>
      exact .inr ⟨_, hi, .inl (.inl (.inr ⟨_, hn, .inr ⟨_, ⟨hf, hname⟩, .inr rfl⟩⟩))⟩
    | server hi => exact .inr ⟨_, hi, .inl (.inr rfl)⟩
    | attachMade hi hv => exact .inr ⟨_, hi, .inr (.inl ⟨_, hv, rfl⟩)⟩
    | attachExisting hi hv => exact .inr ⟨_, hi, .inr (.inr ⟨_, hv, rfl⟩)⟩

/-- The names of the resources of one kind that the server becomes. -/
def namesOf (s : Server) (kind : ResourceKind) : List String :=
  (s.plan.filter fun e => e.2 = kind).map Prod.fst

theorem namesOf_server (s : Server) : s.namesOf .server = s.instanceNames := by
  have hports : ∀ i, ((s.networks.flatMap (s.portPlan (s.instanceName i))).filter fun e =>
      e.2 = ResourceKind.server) = [] := by
    intro i
    rw [List.filter_flatMap, List.flatMap_eq_nil_iff]
    intro network _
    unfold portPlan
    split <;> simp
  have hinstance : ∀ i, ((s.instancePlan i).filter fun e => e.2 = ResourceKind.server) =
      [(s.instanceName i, .server)] := by
    intro i
    by_cases hv : s.makesVolume = true <;> by_cases ha : s.declared.volume.isSome = true <;>
      simp [instancePlan, List.filter_append, hports, hv, ha]
  have hflavor : ((if s.makesFlavor then [(s.flavorName, ResourceKind.flavor)] else []).filter fun e =>
      e.2 = ResourceKind.server) = [] := by
    split <;> simp
  simp only [namesOf, plan, List.filter_append, hflavor, List.nil_append, List.filter_flatMap, hinstance,
    ← List.map_eq_flatMap, List.map_map]
  rfl

end Server

/-! The resources of a topology. -/

namespace Topology
variable {t : Topology} {s : Server} {hints : Hints} {r : Resource} {name : String}

/-- The server is laid out with the hints: those that look at the servers placed before it. -/
def Places (t : Topology) (s : Server) (hints : Hints) : Prop :=
  ∃ before after, t.placementOrder = before ++ s :: after ∧
    hints = Hints.forServer t (before.map Server.resourceName) s

theorem Places.mem_servers (hp : t.Places s hints) : s ∈ t.servers := by
  obtain ⟨before, after, ho, -⟩ := hp
  exact mem_placementOrder.mp (by simp [ho])

theorem exists_places (hs : s ∈ t.servers) : ∃ hints, t.Places s hints := by
  obtain ⟨before, after, ho⟩ := List.append_of_mem (mem_placementOrder.mpr hs)
  exact ⟨_, before, after, ho, rfl⟩

/-- Hints name servers, and the group that the server names. -/
theorem Places.referenced_subset (hp : t.Places s hints) :
    hints.referenced ⊆ t.servers.map Server.resourceName ++ (t.groupResource s).toList := by
  obtain ⟨before, after, ho, rfl⟩ := hp
  have hbefore : before ⊆ t.servers := fun u hu => mem_placementOrder.mp (by simp [ho, hu])
  refine List.Subset.trans (t.referenced_subset _ s) (List.append_subset.mpr ⟨?_, ?_⟩)
  · exact List.subset_append_of_subset_left _ (List.map_subset _ hbefore)
  · exact List.subset_append_right _ _

/-- A layout declares what comes before the servers, and what each server becomes. -/
theorem mem_steps_iff : r ∈ resourcesOf t.steps ↔ r ∈ resourcesOf t.baseSteps ∨
    ∃ s hints, t.Places s hints ∧ s.Declares (s.attached t.networks) hints r := by
  rw [steps_eq, resourcesOf_append, List.mem_append, mem_serverSteps]
  refine or_congr_right ⟨?_, ?_⟩
  · rintro ⟨before, s, after, ho, hr⟩
    exact ⟨s, _, ⟨before, after, ho, rfl⟩, Server.mem_resourcesOf_steps.mp hr⟩
  · rintro ⟨s, -, ⟨before, after, ho, rfl⟩, hd⟩
    exact ⟨before, s, after, ho, Server.mem_resourcesOf_steps.mpr hd⟩

theorem entry_mem_plan (h : t.WellFormed) (hr : r ∈ resourcesOf t.steps) : r.entry ∈ t.plan :=
  entries_steps h ▸ List.mem_map_of_mem hr

/-- What stands before the servers is of no kind that servers bring with them. -/
theorem kind_basePlan {e : PlanEntry} (he : e ∈ t.basePlan) : e.2.ofServer = false := by
  have hnetwork : ∀ n : Network, ∀ e ∈ n.plan, e.2.ofServer = false := by
    intro n
    by_cases hp : n.isProvider = true <;> cases hr : n.router? <;>
      simp [Network.plan, hp, hr, ResourceKind.ofServer]
  simp only [basePlan, List.mem_append, List.mem_map, List.mem_flatMap, List.mem_cons, List.not_mem_nil,
    or_false] at he
  rcases he with ((rfl | rfl) | ⟨g, -, rfl⟩) | ⟨n, -, he⟩
  · rfl
  · rfl
  · rfl
  · exact hnetwork n e he

/-- A resource of a kind that servers bring with them is what a server becomes. -/
theorem exists_declares (hr : r ∈ resourcesOf t.steps) (hk : r.kind.ofServer = true) :
    ∃ s hints, t.Places s hints ∧ s.Declares (s.attached t.networks) hints r := by
  refine (mem_steps_iff.mp hr).resolve_left fun hr => ?_
  have he : r.entry ∈ t.basePlan := t.entries_baseSteps ▸ List.mem_map_of_mem hr
  exact absurd hk (by simpa [Resource.entry] using kind_basePlan he)

/-- The resources of a kind that servers bring with them: those of each server, in the order of
placement. -/
theorem names_ofKind (h : t.WellFormed) {kind : ResourceKind} (hk : kind.ofServer = true) :
    ((resourcesOf t.steps).filter fun r => r.kind = kind).map Resource.name =
      t.placementOrder.flatMap fun s => s.namesOf kind := by
  have hentries : ((resourcesOf t.steps).filter fun r => r.kind = kind).map Resource.name =
      (((resourcesOf t.steps).map Resource.entry).filter fun e => e.2 = kind).map Prod.fst := by
    rw [List.filter_map, List.map_map]
    rfl
  have hbase : (t.basePlan.filter fun e => e.2 = kind) = [] := by
    refine List.filter_eq_nil_iff.mpr fun e he hkind => ?_
    rw [← of_decide_eq_true hkind, kind_basePlan he] at hk
    cases hk
  rw [hentries, entries_steps h, plan, List.filter_append, hbase, List.nil_append, List.filter_flatMap,
    List.map_flatMap]
  rfl

theorem Holds.name_mem_of_attached (h : t.WellFormed) (hs : s ∈ t.servers) {n : Network}
    (hn : n ∈ s.attached t.networks) : n.name ∈ s.networks :=
  h.attached_names hs ▸ List.mem_map_of_mem hn

theorem Places.hint_mem_plan (h : t.WellFormed) (hp : t.Places s hints) (hm : name ∈ hints.referenced) :
    (name, .server) ∈ t.plan ∨ (name, .serverGroup) ∈ t.plan := by
  rcases List.mem_append.mp (hp.referenced_subset hm) with hm | hm
  · obtain ⟨u, hu, rfl⟩ := List.mem_map.mp hm
    exact Or.inl (server_mem_plan hu (h.instances_pos hu))
  · obtain ⟨g, hg, rfl⟩ := List.mem_map.mp (groupResource_mem h hp.mem_servers hm)
    refine Or.inr (List.mem_append_left _ (List.mem_append_left _ (List.mem_append_right _ ?_)))
    exact List.mem_map.mpr ⟨g, hg, rfl⟩

end Topology

/-! The kinds of what resources refer to. -/

/-- The resource refers to the one of that name: in its properties, without the specs of a flavor that the
user has written, or as what it depends on. -/
def Resource.RefersTo (r : Resource) (name : String) : Prop :=
  str name ∈ r.references ∨ name ∈ r.dependsOn

/-- Everything that the resource refers to is in the plan, and is of a kind that it may refer to. -/
def Resource.Typed (r : Resource) (plan : List PlanEntry) : Prop :=
  ∀ name, r.RefersTo name → ∃ kind ∈ r.kind.wants, (name, kind) ∈ plan

namespace Resource
variable {r : Resource} {plan more : List PlanEntry}

/-- A resource that lists what it refers to, and depends on nothing else. -/
theorem mem_of_refersTo (names : List String) {name : String} (hr : r.references ⊆ names.map str)
    (hd : r.dependsOn ⊆ names) (h : r.RefersTo name) : name ∈ names := by
  rcases h with h | h
  · obtain ⟨name', hname, he⟩ := List.mem_map.mp (hr h)
    exact Json.str.inj he ▸ hname
  · exact hd h

theorem Typed.of_none (hr : r.references = []) (hd : r.dependsOn = []) : r.Typed plan := by
  intro name h
  have hname := mem_of_refersTo [] (by simp [hr]) (by simp [hd]) h
  cases hname

theorem Typed.of_entries (entries : List PlanEntry) (hr : r.references ⊆ (entries.map Prod.fst).map str)
    (hd : r.dependsOn ⊆ entries.map Prod.fst) (h : ∀ e ∈ entries, e.2 ∈ r.kind.wants ∧ e ∈ plan) :
    r.Typed plan := by
  intro name hname
  obtain ⟨e, he, rfl⟩ := List.mem_map.mp (mem_of_refersTo _ hr hd hname)
  exact ⟨e.2, (h e he).1, (h e he).2⟩

theorem Typed.mono (h : r.Typed plan) (hm : plan ⊆ more) : r.Typed more := fun name hname =>
  let ⟨kind, hkind, he⟩ := h name hname
  ⟨kind, hkind, hm he⟩

end Resource

theorem Topology.typed_serverGroups {plan : List PlanEntry} {gs : List ServerGroup} :
    ∀ r ∈ resourcesOf (gs.map serverGroupStep), r.Typed plan := by
  intro r hr
  obtain ⟨step, hstep, hr⟩ := List.mem_filterMap.mp hr
  obtain ⟨g, -, rfl⟩ := List.mem_map.mp hstep
  obtain rfl := Option.some.inj hr
  refine .of_none ?_ rfl
  rw [Resource.references_of_ne (by simp)]
  simp

/-- An instance refers to the key pair, its flavor, its ports, and what its hints name. -/
theorem Server.refersTo_cases (s : Server) {networks : List Network} {hints : Hints} {inst name : String}
    (h : (s.instanceResource networks hints inst).RefersTo name) :
    name = keypairName s.context ∨ name ∈ s.ownFlavor ∨
      (∃ n ∈ networks, name = portName inst n.name) ∨ name ∈ hints.referenced := by
  rcases h with hreference | hdependency
  · rw [s.references_instance] at hreference
    obtain ⟨name', hname, he⟩ := List.mem_map.mp hreference
    obtain rfl := Json.str.inj he
    simpa [or_assoc, eq_comm] using hname
  · rcases mem_instanceDependencies.mp hdependency with (hport | hflavor) | hhint
    · obtain ⟨n, hn, rfl⟩ := List.mem_map.mp hport
      exact Or.inr (Or.inr (Or.inl ⟨n, hn, rfl⟩))
    · exact Or.inr (Or.inl hflavor)
    · exact Or.inr (Or.inr (Or.inr hhint))

/-- What an instance refers to is planned, and a flavor or a port among it is its own. -/
theorem Topology.Places.refersTo {t : Topology} {s : Server} {hints : Hints} (hp : t.Places s hints)
    (h : t.WellFormed) {i : ℕ} (hi : i < s.instances) {name : String}
    (hu : (s.instanceResource (s.attached t.networks) hints (s.instanceName i)).RefersTo name) :
    ∃ kind ∈ ResourceKind.server.wants, (name, kind) ∈ t.plan ∧ (kind = .flavor → name ∈ s.ownFlavor) ∧
      (kind = .port → ∃ n ∈ s.attached t.networks, name = portName (s.instanceName i) n.name) := by
  have hs := hp.mem_servers
  rcases s.refersTo_cases hu with rfl | hflavor | ⟨n, hn, rfl⟩ | hhint
  · refine ⟨.keyPair, by simp [ResourceKind.wants], ?_, by simp, by simp⟩
    rw [h.server_context hs]
    simp [Topology.plan, Topology.basePlan, Topology.keypair]
  · exact ⟨.flavor, by simp [ResourceKind.wants], Topology.flavor_mem_plan hs hflavor, fun _ => hflavor,
      by simp⟩
  · exact ⟨.port, by simp [ResourceKind.wants],
      Topology.port_mem_plan hs hi (h.name_mem_of_attached hs hn), by simp, fun _ => ⟨n, hn, rfl⟩⟩
  · rcases hp.hint_mem_plan h hhint with hm | hm
    · exact ⟨.server, by simp [ResourceKind.wants], hm, by simp, by simp⟩
    · exact ⟨.serverGroup, by simp [ResourceKind.wants], hm, by simp, by simp⟩

theorem Network.typed (n : Network) : ∀ r ∈ resourcesOf n.steps, r.Typed n.plan := by
  have hnetwork : n.resource.Typed n.plan := .of_none n.references_resource rfl
  have hsubnet : n.subnet.Typed n.plan := by
    refine .of_entries [n.resource.entry] (n.references_subnet ▸ List.Subset.refl _)
      (List.Subset.refl _) ?_
    refine List.forall_mem_singleton.mpr ⟨?_, by simp [plan, Resource.entry, resource]⟩
    by_cases hp : n.isProvider = true <;>
      simp [Resource.entry, resource, subnet, hp, ResourceKind.wants]
  intro r hr
  cases hrouter : n.router? with
  | none =>
    simp only [steps, hrouter, resourcesOf_declare, resourcesOf_report, resourcesOf_nil,
      List.append_nil, List.mem_cons, List.not_mem_nil, or_false] at hr
    rcases hr with rfl | rfl
    · exact hnetwork
    · exact hsubnet
  | some router =>
    have hentry : (n.subnetName, ResourceKind.subnet) ∈ n.plan := by simp [plan]
    simp only [steps, hrouter, routerSteps, resourcesOf_append, resourcesOf_declare,
      resourcesOf_report, resourcesOf_nil, List.mem_append, List.mem_cons, List.not_mem_nil,
      or_false] at hr
    rcases hr with (rfl | rfl) | rfl | rfl
    · exact hnetwork
    · exact hsubnet
    · refine .of_entries [(n.subnetName, .subnet)] (by simp [references_router]) (List.Subset.refl _) ?_
      exact List.forall_mem_singleton.mpr ⟨List.mem_cons_self, hentry⟩
    · refine .of_entries [(router.resourceName, .router), (n.subnetName, .subnet)]
        (n.references_interface router ▸ List.Subset.refl _) (List.Subset.refl _) ?_
      exact List.forall_mem_cons.mpr ⟨⟨List.mem_cons_self, by simp [plan, hrouter]⟩,
        List.forall_mem_singleton.mpr ⟨List.mem_cons_of_mem _ List.mem_cons_self, hentry⟩⟩

theorem Server.typed_port {t : Topology} (s : Server) (h : t.WellFormed) (hs : s ∈ t.servers)
    {n : Network} (hn : n ∈ t.networks) (port : String) : (s.portResource n port).Typed t.plan := by
  have hplan := Topology.network_plan_subset hn
  have hnetwork : n.resource.kind ∈ (s.portResource n port).kind.wants := by
    by_cases hprovider : n.isProvider = true <;>
      simp [Network.resource, portResource, hprovider, ResourceKind.wants]
  refine .of_entries [n.resource.entry, (n.subnetName, .subnet), (t.securityGroup, .securityGroup)]
    ?_ (by simp [portResource]) ?_
  · rw [s.references_port, h.server_context hs]
    intro v hv
    split at hv
    · exact List.mem_append_left [str t.securityGroup] (List.append_nil _ ▸ hv)
    · exact hv
  · simp only [List.forall_mem_cons, List.not_mem_nil, false_imp_iff, implies_true, and_true]
    refine ⟨⟨hnetwork, hplan ?_⟩, ⟨by simp [portResource, ResourceKind.wants], hplan ?_⟩,
      by simp [portResource, ResourceKind.wants], ?_⟩
    · simp [Network.plan, Resource.entry, Network.resource]
    · simp [Network.plan]
    · simp [Topology.plan, Topology.basePlan]

namespace Server.Declares
variable {t : Topology} {s : Server} {hints : Hints} {r : Resource}

theorem typed (h : t.WellFormed) (hp : t.Places s hints) (hd : s.Declares (s.attached t.networks) hints r) :
    r.Typed t.plan := by
  have hs := hp.mem_servers
  cases hd with
  | flavor hf => exact .of_none (s.references_flavor _) rfl
  | volume hi hv => exact .of_none (references_volume _ _) rfl
  | port hi hn => exact s.typed_port h hs (Topology.Holds.mem_networks_of_attached hn) _
  | @floatingIp i n f hi hn hf hname =>
    cases hrouter : n.router? with
    | none => exact .of_none (references_floatingIp _ _ _) (by simp [floatingIpResource, hrouter])
    | some router =>
      have hnetwork := Topology.Holds.mem_networks_of_attached hn
      refine .of_entries [(router.interfaceName, .routerInterface)] (by simp [references_floatingIp])
        (by simp [floatingIpResource, hrouter]) (List.forall_mem_singleton.mpr ⟨List.mem_cons_self, ?_⟩)
      exact Topology.network_plan_subset hnetwork (by simp [Network.plan, hrouter])
  | @association i n f hi hn hf hname =>
    have hnetwork := h.name_mem_of_attached hs hn
    refine .of_entries [(floatingIpName (s.instanceName i), .floatingIp),
      (portName (s.instanceName i) n.name, .port)] (references_association _ _ ▸ List.Subset.refl _)
      (List.Subset.refl _) ?_
    simp only [List.forall_mem_cons, List.not_mem_nil, false_imp_iff, implies_true, and_true]
    exact ⟨⟨List.mem_cons_self, Topology.floatingIp_mem_plan hs hi hf (hname ▸ hnetwork)⟩,
      List.mem_cons_of_mem _ List.mem_cons_self, Topology.port_mem_plan hs hi hnetwork⟩
  | server hi =>
    intro name hu
    obtain ⟨kind, hkind, hm, -⟩ := hp.refersTo h hi hu
    exact ⟨kind, hkind, hm⟩
  | @attachMade i size hi hv =>
    refine .of_entries [(s.instanceName i, .server), (volumeName (s.instanceName i), .volume)]
      (by simp [references_attachment]) (List.Subset.refl _) ?_
    simp only [List.forall_mem_cons, List.not_mem_nil, false_imp_iff, implies_true, and_true]
    exact ⟨⟨List.mem_cons_self, Topology.server_mem_plan hs hi⟩,
      List.mem_cons_of_mem _ List.mem_cons_self, Topology.volume_mem_plan hs hi hv⟩
  | @attachExisting i id hi hv =>
    exact .of_entries [(s.instanceName i, .server)] (by simp [references_attachment])
      (List.Subset.refl _)
      (List.forall_mem_singleton.mpr ⟨List.mem_cons_self, Topology.server_mem_plan hs hi⟩)

end Server.Declares

/-- In a layout every reference leads to a resource of a kind that may be referred to. -/
theorem Topology.typed {t : Topology} (h : t.WellFormed) : ∀ r ∈ resourcesOf t.steps, r.Typed t.plan := by
  intro r hr
  rcases mem_steps_iff.mp hr with hr | ⟨s, hints, hp, hd⟩
  · obtain ⟨key, group, haccess, -, -, hnone⟩ := t.access_resources
    simp only [baseSteps] at hr
    rw [resourcesOf_append, resourcesOf_append, haccess, resourcesOf_flatMap] at hr
    rcases List.mem_append.mp hr with hr | hnetwork
    · rcases List.mem_append.mp hr with haccess | hgroup
      · exact .of_none (hnone r haccess).1 (hnone r haccess).2
      · exact typed_serverGroups r hgroup
    · obtain ⟨n, hn, hr⟩ := List.mem_flatMap.mp hnetwork
      exact (n.typed r hr).mono (network_plan_subset hn)
  · exact hd.typed h hp

end Provision
