import Provision.Proofs.Layout.Inventory
import Provision.Proofs.Topology.InstanceNames

/-! How the instances of a compiled context are wired. Ports, volumes, floating addresses and flavors are
referred to by name, and names are put together from those of servers, instances and networks. As no name
of a graph is taken twice, nothing is shared: a reference leads to what was made for the instance. -/
namespace Provision

open Json

/-- Of all resources of one kind it is this one alone that refers to the name. -/
structure Graph.SoleUser (g : Graph) (kind : ResourceKind) (name : String) (r : Resource) : Prop where
  mem : r ∈ g.ofKind kind
  refers : r.RefersTo name
  sole : ∀ r' ∈ g.ofKind kind, r'.RefersTo name → r' = r

theorem Graph.mem_ofKind {g : Graph} {kind : ResourceKind} {r : Resource} :
    r ∈ g.ofKind kind ↔ r ∈ g.resources ∧ r.kind = kind := by
  simp [ofKind]

/-- Each part of a list without repetitions can be found again. -/
theorem filter_flatMap_of_nodup {α β : Type} [DecidableEq β] {f : α → List β} {xs : List α} {a : α}
    (h : (xs.flatMap f).Nodup) (ha : a ∈ xs) : ((xs.flatMap f).filter fun x => x ∈ f a) = f a := by
  obtain ⟨before, after, rfl⟩ := List.append_of_mem ha
  rw [List.flatMap_append, List.flatMap_cons] at h ⊢
  obtain ⟨-, hafter, hbefore⟩ := List.nodup_append'.mp h
  have hapart := (List.nodup_append'.mp hafter).2.2
  have hnone : ∀ ys : List β, ys.Disjoint (f a) → (ys.filter fun x => x ∈ f a) = [] := fun ys hys =>
    List.filter_eq_nil_iff.mpr fun x hx hm => hys hx (of_decide_eq_true hm)
  rw [List.filter_append, List.filter_append, List.filter_eq_self.mpr fun x hx => decide_eq_true hx,
    hnone _ (List.disjoint_of_disjoint_append_right_left hbefore), hnone _ fun x hx hx' => hapart hx' hx,
    List.append_nil, List.nil_append]

namespace Topology
variable {t : Topology} {s s' : Server} {r r' d : Resource}

theorem eq_of_name (h : t.WellFormed) (hn : (t.plan.map Prod.fst).Nodup) (hr : r ∈ resourcesOf t.steps)
    (hr' : r' ∈ resourcesOf t.steps) (he : r.name = r'.name) : r = r' :=
  List.inj_on_of_nodup_map (names_nodup h hn) hr hr' he

/-- A name of the plan stands for a resource of one kind. -/
theorem kind_unique (hn : (t.plan.map Prod.fst).Nodup) {name : String} {kind kind' : ResourceKind}
    (hm : (name, kind) ∈ t.plan) (hm' : (name, kind') ∈ t.plan) : kind = kind' :=
  congrArg Prod.snd (List.inj_on_of_nodup_map hn hm hm' rfl)

/-- A reference to a resource goes to one of a kind that is allowed. -/
theorem kind_of_refers (h : t.WellFormed) (hn : (t.plan.map Prod.fst).Nodup)
    (hr : r ∈ resourcesOf t.steps) (hd : d ∈ resourcesOf t.steps) (hu : r.RefersTo d.name) :
    d.kind ∈ r.kind.wants := by
  obtain ⟨kind, hkind, hm⟩ := typed h r hr _ hu
  rwa [kind_unique hn (entry_mem_plan h hd) hm]

/-- The ports of different instances differ, and so do those on different networks. -/
theorem portName_inj (hn : t.portNames.Nodup) (hs : s ∈ t.servers) (hs' : s' ∈ t.servers) {i j : ℕ}
    (hi : i < s.instances) (hj : j < s'.instances) {network network' : String}
    (hm : network ∈ s.networks) (hm' : network' ∈ s'.networks)
    (he : portName (s.instanceName i) network = portName (s'.instanceName j) network') :
    s = s' ∧ i = j := by
  have hport : ∀ {s : Server} {i : ℕ} {network : String}, network ∈ s.networks →
      portName (s.instanceName i) network ∈ s.networks.map (portName (s.instanceName i)) :=
    fun hm => List.mem_map_of_mem hm
  have hown : ∀ {s : Server} {i : ℕ} {network : String}, i < s.instances → network ∈ s.networks →
      portName (s.instanceName i) network ∈ s.portNames := fun hi hm =>
    List.mem_flatMap.mpr ⟨_, List.mem_range.mpr hi, hport hm⟩
  obtain rfl : s = s' := eq_of_mem_flatMap hn hs hs' (hown hi hm) (he ▸ hown hj hm')
  refine ⟨rfl, ?_⟩
  exact eq_of_mem_flatMap ((List.nodup_flatMap.mp hn).1 s hs) (List.mem_range.mpr hi)
    (List.mem_range.mpr hj) (hport hm) (he ▸ hport hm')

end Topology

/-! What is there of each kind. -/

namespace Server.Declares
variable {s : Server} {networks : List Network} {hints : Hints} {r : Resource}

theorem of_server (hd : s.Declares networks hints r) (hk : r.kind = .server) :
    ∃ i < s.instances, r = s.instanceResource networks hints (s.instanceName i) := by
  cases hd with
  | server hi => exact ⟨_, hi, rfl⟩
  | _ => cases hk

theorem of_port (hd : s.Declares networks hints r) (hk : r.kind = .port) :
    ∃ i < s.instances, ∃ n ∈ networks, r = s.portResource n (portName (s.instanceName i) n.name) := by
  cases hd with
  | port hi hn => exact ⟨_, hi, _, hn, rfl⟩
  | _ => cases hk

theorem of_flavor (hd : s.Declares networks hints r) (hk : r.kind = .flavor) :
    ∃ f, s.flavor = some (.inline f) ∧ r = s.flavorResource f := by
  cases hd with
  | flavor hf => exact ⟨_, hf, rfl⟩
  | _ => cases hk

theorem of_volume (hd : s.Declares networks hints r) (hk : r.kind = .volume) :
    ∃ i < s.instances, ∃ size, s.declared.volume = some (.inline size) ∧
      r = volumeResource (s.instanceName i) size := by
  cases hd with
  | volume hi hv => exact ⟨_, hi, _, hv, rfl⟩
  | _ => cases hk

theorem of_floatingIp (hd : s.Declares networks hints r) (hk : r.kind = .floatingIp) :
    ∃ i < s.instances, ∃ n ∈ networks, ∃ f, s.floatingIp = some f ∧ f.network = n.name ∧
      r = floatingIpResource (s.instanceName i) f n := by
  cases hd with
  | floatingIp hi hn hf hname => exact ⟨_, hi, _, hn, _, hf, hname, rfl⟩
  | _ => cases hk

/-- An association refers to the floating address of its instance and to one of its ports. -/
theorem of_association (hd : s.Declares networks hints r) (hk : r.kind = .floatingIpAssociation) :
    ∃ i < s.instances, r.name = associationName (s.instanceName i) ∧ ∀ name, r.RefersTo name →
      name = floatingIpName (s.instanceName i) ∨ ∃ network, name = portName (s.instanceName i) network := by
  cases hd with
  | @association i n f hi hn hf hname =>
    refine ⟨i, hi, rfl, fun name hu => ?_⟩
    have hmem := Resource.mem_of_refersTo _ (references_association _ _ ▸ List.Subset.refl _)
      (List.Subset.refl _) hu
    rcases List.mem_cons.mp hmem with rfl | hmem
    · exact Or.inl rfl
    · exact Or.inr ⟨n.name, List.mem_singleton.mp hmem⟩
  | _ => cases hk

/-- An attachment refers to its instance, and to no volume but the one that was made for it. -/
theorem of_attachment (hd : s.Declares networks hints r) (hk : r.kind = .volumeAttachment) :
    ∃ i < s.instances, r.name = attachmentName (s.instanceName i) ∧ ∀ name, r.RefersTo name →
      name = s.instanceName i ∨ name = volumeName (s.instanceName i) := by
  have hnames : ∀ {i : ℕ} {volume : Json} {own : List String} {name : String},
      volume.under "get_resource" ⊆ [str (volumeName (s.instanceName i))] →
      own ⊆ [volumeName (s.instanceName i)] →
      (s.attachmentResource (s.instanceName i) volume own).RefersTo name →
      name = s.instanceName i ∨ name = volumeName (s.instanceName i) := by
    intro i volume own name hvolume hown hu
    have hmem := Resource.mem_of_refersTo [s.instanceName i, volumeName (s.instanceName i)]
      (s.references_attachment .. ▸ List.cons_subset_cons _ hvolume) (List.cons_subset_cons _ hown) hu
    simpa using hmem
  cases hd with
  | @attachMade i size hi hv =>
    exact ⟨i, hi, rfl, fun name hu => hnames (by simp) (List.Subset.refl _) hu⟩
  | @attachExisting i id hi hv =>
    exact ⟨i, hi, rfl, fun name hu => hnames (by simp) (List.nil_subset _) hu⟩
  | _ => cases hk

end Server.Declares

/-! Who refers to what. -/

namespace Topology
variable {t : Topology} {s : Server} {hints : Hints} {i : ℕ} {r : Resource} {name : String}

/-- An instance refers to no ports but its own. -/
theorem refersTo_port (h : t.WellFormed) (hn : (t.plan.map Prod.fst).Nodup) (hp : t.Places s hints)
    (hi : i < s.instances) (hm : (name, .port) ∈ t.plan)
    (hu : (s.instanceResource (s.attached t.networks) hints (s.instanceName i)).RefersTo name) :
    ∃ n ∈ s.attached t.networks, name = portName (s.instanceName i) n.name := by
  obtain ⟨kind, -, hplan, -, hport⟩ := hp.refersTo h hi hu
  exact hport (kind_unique hn hplan hm)

/-- An instance refers to no flavor but that of its server. -/
theorem refersTo_flavor (h : t.WellFormed) (hn : (t.plan.map Prod.fst).Nodup) (hp : t.Places s hints)
    (hi : i < s.instances) (hm : (name, .flavor) ∈ t.plan)
    (hu : (s.instanceResource (s.attached t.networks) hints (s.instanceName i)).RefersTo name) :
    name ∈ s.ownFlavor := by
  obtain ⟨kind, -, hplan, hflavor, -⟩ := hp.refersTo h hi hu
  exact hflavor (kind_unique hn hplan hm)

variable {g : Graph} {kind : ResourceKind}

theorem declared_of_mem (hg : g.resources = resourcesOf t.steps) (hr : r ∈ g.ofKind kind)
    (hk : kind.ofServer = true) :
    ∃ s hints, t.Places s hints ∧ s.Declares (s.attached t.networks) hints r ∧ r.kind = kind := by
  obtain ⟨hm, rfl⟩ := Graph.mem_ofKind.mp hr
  obtain ⟨s, hints, hp, hd⟩ := exists_declares (hg ▸ hm) hk
  exact ⟨s, hints, hp, hd, rfl⟩

/-- A resource that refers to a name is the only one of its kind to do so if all that do have its name. -/
theorem soleUser_of_name (h : t.WellFormed) (hn : (t.plan.map Prod.fst).Nodup)
    (hg : g.resources = resourcesOf t.steps) (hr : r ∈ g.ofKind kind) (hk : kind.ofServer = true)
    (hu : r.RefersTo name) (hsole : ∀ s hints r', t.Places s hints →
      s.Declares (s.attached t.networks) hints r' → r'.kind = kind → r'.RefersTo name → r'.name = r.name) :
    g.SoleUser kind name r := by
  refine ⟨hr, hu, fun r' hr' hu' => ?_⟩
  obtain ⟨s, hints, hp, hd, hkind⟩ := declared_of_mem hg hr' hk
  have hmem : ∀ {d : Resource}, d ∈ g.ofKind kind → d ∈ resourcesOf t.steps := fun hd =>
    hg ▸ (Graph.mem_ofKind.mp hd).1
  exact eq_of_name h hn (hmem hr') (hmem hr) (hsole s hints r' hp hd hkind hu')

theorem mem_ofKind_of_declares (hg : g.resources = resourcesOf t.steps) (hp : t.Places s hints)
    (hd : s.Declares (s.attached t.networks) hints r) : r ∈ g.ofKind r.kind :=
  Graph.mem_ofKind.mpr ⟨hg ▸ mem_steps_iff.mpr (Or.inr ⟨s, hints, hp, hd⟩), rfl⟩

/-- The flavor of a server is for its instances alone. -/
theorem refersTo_flavor_iff (h : t.WellFormed) (hn : (t.plan.map Prod.fst).Nodup)
    (hg : g.resources = resourcesOf t.steps) (hs : s ∈ t.servers) {f : InlineFlavor}
    (hf : s.flavor = some (.inline f)) (hr : r ∈ g.resources) :
    r.RefersTo s.flavorName ↔ r.kind = .server ∧ r.name ∈ s.instanceNames := by
  have hown : s.ownFlavor = [s.flavorName] := by simp [Server.ownFlavor, hf]
  obtain ⟨hints, hp⟩ := exists_places hs
  have hd : s.Declares (s.attached t.networks) hints (s.flavorResource f) := .flavor hf
  have hflavor : s.flavorResource f ∈ resourcesOf t.steps := mem_steps_iff.mpr (Or.inr ⟨s, hints, hp, hd⟩)
  rw [hg] at hr
  constructor
  · intro hu
    have hkind : r.kind = .server := by
      have hwants := kind_of_refers h hn hr hflavor hu
      cases hk : r.kind <;> simp [hk, Server.flavorResource, ResourceKind.wants] at hwants ⊢
    obtain ⟨s', hints', hp', hd'⟩ := exists_declares hr (hkind ▸ rfl)
    obtain ⟨j, hj, rfl⟩ := hd'.of_server hkind
    have hmem := refersTo_flavor h hn hp' hj (flavor_mem_plan hs (hown ▸ List.mem_cons_self)) hu
    have he : s.ownName 0 .flavor = s'.ownName 0 .flavor := (Server.mem_ownFlavor.mp hmem).2
    obtain ⟨rfl, -, -⟩ := h.ownName_inj hs hp'.mem_servers he
    exact ⟨rfl, List.mem_map_of_mem (List.mem_range.mpr hj)⟩
  · rintro ⟨hkind, hname⟩
    obtain ⟨s', hints', hp', hd'⟩ := exists_declares hr (hkind ▸ rfl)
    obtain ⟨j, hj, rfl⟩ := hd'.of_server hkind
    obtain ⟨i, -, he⟩ := List.mem_map.mp hname
    obtain ⟨rfl, rfl⟩ := h.instanceName_inj hs hp'.mem_servers he
    refine Or.inr (Server.mem_instanceDependencies.mpr (Or.inl (Or.inr ?_)))
    exact hown ▸ List.mem_cons_self

variable (h : t.WellFormed) (hn : (t.plan.map Prod.fst).Nodup)
  (hg : g.resources = resourcesOf t.steps) (hp : t.Places s hints) (hi : i < s.instances)
include h hn hg hp hi

/-- The port of an instance on a network serves this instance alone. -/
theorem soleUser_port {n : Network} (hm : n ∈ s.attached t.networks) :
    g.SoleUser .server (portName (s.instanceName i) n.name)
      (s.instanceResource (s.attached t.networks) hints (s.instanceName i)) := by
  have hnetwork := h.name_mem_of_attached hp.mem_servers hm
  refine soleUser_of_name h hn hg (mem_ofKind_of_declares hg hp (.server hi)) rfl ?_ ?_
  · refine Or.inl ?_
    rw [s.references_instance]
    refine List.mem_map_of_mem (List.mem_append_left _ (List.mem_append_right _ ?_))
    exact List.mem_map_of_mem (f := fun n : Network => portName (s.instanceName i) n.name) hm
  · intro s' hints' r' hp' hd hkind hu
    obtain ⟨j, hj, rfl⟩ := hd.of_server hkind
    obtain ⟨n', hm', he⟩ := refersTo_port h hn hp' hj (port_mem_plan hp.mem_servers hi hnetwork) hu
    obtain ⟨rfl, rfl⟩ := portName_inj ((plan_nodup_iff h).mp hn).ports hp.mem_servers hp'.mem_servers hi hj
      hnetwork (h.name_mem_of_attached hp'.mem_servers hm') he
    rfl

/-- The volume made for an instance is attached to this instance alone. -/
theorem soleUser_volume {size : UInt32} (hv : s.declared.volume = some (.inline size)) :
    g.SoleUser .volumeAttachment (volumeName (s.instanceName i))
      (s.attachmentResource (s.instanceName i) (resourceRef (volumeName (s.instanceName i)))
        [volumeName (s.instanceName i)]) := by
  refine soleUser_of_name h hn hg (mem_ofKind_of_declares hg hp (.attachMade hi hv)) rfl ?_ ?_
  · exact Or.inr (by simp [Server.attachmentResource])
  · intro s' hints' r' hp' hd hkind hu
    obtain ⟨j, hj, hname, hnames⟩ := hd.of_attachment hkind
    rcases hnames _ hu with he | he
    · rw [← s'.ownName_server] at he
      obtain ⟨-, -, hpart⟩ := h.ownName_inj (p := .volume) hp.mem_servers hp'.mem_servers he
      cases hpart
    · obtain ⟨rfl, rfl, -⟩ := h.ownName_inj (p := .volume) (q := .volume) hp.mem_servers hp'.mem_servers he
      exact hname

/-- The floating address of an instance is associated once. -/
theorem soleUser_floatingIp {n : Network} {f : FloatingIp} (hm : n ∈ s.attached t.networks)
    (hf : s.floatingIp = some f) (hname : f.network = n.name) :
    g.SoleUser .floatingIpAssociation (floatingIpName (s.instanceName i))
      (Server.associationResource (s.instanceName i) (portName (s.instanceName i) n.name)) := by
  refine soleUser_of_name h hn hg (mem_ofKind_of_declares hg hp (.association hi hm hf hname)) rfl ?_ ?_
  · exact Or.inr (by simp [Server.associationResource])
  · intro s' hints' r' hp' hd hkind hu
    obtain ⟨j, hj, hname, hnames⟩ := hd.of_association hkind
    rcases hnames _ hu with he | ⟨network, he⟩
    · obtain ⟨rfl, rfl, -⟩ := h.ownName_inj (p := .floatingIp) (q := .floatingIp) hp.mem_servers
        hp'.mem_servers he
      exact hname
    · exact absurd he.symm (Server.port_ne (by decide) (by decide))

end Topology

/-! Nothing is shared. -/

/-- The instance is attached to the networks, to each of them by a port of its own. -/
structure Graph.Attaches (g : Graph) (r : Resource) (networks : List Network) : Prop where
  ports : ∃ ports, ports.Nodup ∧
    r.properties.member? "networks" = some (arr (ports.map fun p => obj [("port", resourceRef p.name)])) ∧
    List.Forall₂ (fun p n => p.properties.member? "network_id" = some (resourceRef n.resourceName))
      ports networks ∧
    ∀ p, p ∈ ports ↔ p ∈ g.ofKind .port ∧ r.RefersTo p.name

/-- The instances of a topology, each with what it is wired with. -/
structure Graph.Wired (g : Graph) (t : Topology) : Prop where
  names_nodup : (g.resources.map Resource.name).Nodup
  instances : (g.ofKind .server).map Resource.name = t.placementOrder.flatMap Server.instanceNames
  count : ∀ s ∈ t.servers, ((g.ofKind .server).filter fun r => r.name ∈ s.instanceNames).length =
    s.declared.instances.toNat
  attached : ∀ s ∈ t.servers, (s.attached t.networks).map Network.name = s.networks ∧
    ∀ i < s.instances, ∃ r ∈ g.ofKind .server, r.name = s.instanceName i ∧
      g.Attaches r (s.attached t.networks)
  ports : ∀ p ∈ g.ofKind .port, ∃ r, g.SoleUser .server p.name r
  volumes : ∀ v ∈ g.ofKind .volume, ∃ s ∈ t.servers, ∃ i < s.instances, ∃ size,
    s.declared.volume = some (.inline size) ∧ v = Server.volumeResource (s.instanceName i) size ∧
    ∃ a, g.SoleUser .volumeAttachment v.name a ∧
      a.properties.member? "volume_id" = some (resourceRef v.name) ∧
      a.properties.member? "instance_uuid" = some (resourceRef (s.instanceName i))
  floatingIps : ∀ f ∈ g.ofKind .floatingIp, ∃ s ∈ t.servers, ∃ i < s.instances,
    f.name = floatingIpName (s.instanceName i) ∧ ∃ a, g.SoleUser .floatingIpAssociation f.name a ∧
      a.properties.member? "floatingip_id" = some (resourceRef f.name) ∧
      ∃ p ∈ g.ofKind .port, a.properties.member? "port_id" = some (resourceRef p.name) ∧
        ∃ r, g.SoleUser .server p.name r ∧ r.name = s.instanceName i
  flavors : ∀ f ∈ g.ofKind .flavor, ∃ s ∈ t.servers, f.name = s.flavorName ∧
    ∀ r ∈ g.resources, r.RefersTo f.name ↔ r.kind = .server ∧ r.name ∈ s.instanceNames

namespace Server

theorem member?_networks (s : Server) (networks : List Network) (hints : Hints) (inst : String) :
    (s.instanceResource networks hints inst).properties.member? "networks" =
      some (arr (networks.map fun n => obj [("port", resourceRef (portName inst n.name))])) := by
  have hname : ∀ key value, key ≠ "networks" →
      (nameProperty key value).find? (fun m => m.1 == "networks") = none := by
    intro key value hk
    cases value <;> simp [nameProperty, hk]
  have hflavor : s.flavorProperty.find? (fun m => m.1 == "networks") = none := by
    rcases hf : s.flavor with _ | name | f <;> simp [flavorProperty, hf]
  simp [instanceResource, Json.member?, List.find?_append, hname, hflavor, Function.comp_def]

end Server

namespace Topology
variable {t : Topology} {g : Graph} {s : Server}

theorem instances_of_steps (h : t.WellFormed) (hg : g.resources = resourcesOf t.steps) :
    (g.ofKind .server).map Resource.name = t.placementOrder.flatMap Server.instanceNames := by
  rw [Graph.ofKind, hg, names_ofKind h rfl]
  simp only [Server.namesOf_server]

/-- The instances of one server can be told by their names. -/
theorem count_instances (h : t.WellFormed) (hg : g.resources = resourcesOf t.steps) (hs : s ∈ t.servers) :
    ((g.ofKind .server).filter fun r => r.name ∈ s.instanceNames).length = s.instances := by
  have hnames := instances_of_steps h hg
  have hnodup : (t.placementOrder.flatMap Server.instanceNames).Nodup :=
    (t.placementOrder_perm.flatMap fun s _ => .refl _).nodup_iff.mpr h.instanceNames_nodup
  have hown := filter_flatMap_of_nodup hnodup (mem_placementOrder.mpr hs)
  rw [← hnames, List.filter_map] at hown
  have hlength := congrArg List.length hown
  rw [List.length_map] at hlength
  exact hlength.trans (by simp [Server.instanceNames])

theorem attaches {hints : Hints} {i : ℕ} (h : t.WellFormed) (hn : (t.plan.map Prod.fst).Nodup)
    (hg : g.resources = resourcesOf t.steps) (hp : t.Places s hints) (hi : i < s.instances) :
    g.Attaches (s.instanceResource (s.attached t.networks) hints (s.instanceName i))
      (s.attached t.networks) := by
  have hnames : ((s.attached t.networks).map fun n => portName (s.instanceName i) n.name).Nodup := by
    have hmapped := (networks_nodup h hn hp.mem_servers).map (Server.portName_injective (s.instanceName i))
    rwa [List.map_map] at hmapped
  have hport : ∀ n ∈ s.attached t.networks,
      s.portResource n (portName (s.instanceName i) n.name) ∈ g.ofKind .port := fun n hm =>
    mem_ofKind_of_declares hg hp (.port hi hm)
  refine ⟨(s.attached t.networks).map fun n => s.portResource n (portName (s.instanceName i) n.name),
    ?_, ?_, ?_, fun p => ⟨fun hmem => ?_, fun ⟨hm, hu⟩ => ?_⟩⟩
  · exact List.Nodup.of_map Resource.name (by rwa [List.map_map])
  · rw [s.member?_networks, List.map_map]
    rfl
  · rw [List.forall₂_map_left_iff, List.forall₂_same]
    exact fun n _ => rfl
  · obtain ⟨n, hm, rfl⟩ := List.mem_map.mp hmem
    exact ⟨hport n hm, (soleUser_port h hn hg hp hi hm).refers⟩
  · obtain ⟨hm, hkind⟩ := Graph.mem_ofKind.mp hm
    rw [hg] at hm
    have hplan : (p.name, .port) ∈ t.plan := hkind ▸ entry_mem_plan h hm
    obtain ⟨n, hm', he⟩ := refersTo_port h hn hp hi hplan hu
    have hsame := hg ▸ (Graph.mem_ofKind.mp (hport n hm')).1
    exact List.mem_map.mpr ⟨n, hm', eq_of_name h hn hsame hm he.symm⟩

theorem wired (h : t.WellFormed) (hn : (t.plan.map Prod.fst).Nodup)
    (hg : g.resources = resourcesOf t.steps) : g.Wired t where
  names_nodup := hg ▸ names_nodup h hn
  instances := instances_of_steps h hg
  count s hs := count_instances h hg hs
  attached s hs := by
    obtain ⟨hints, hp⟩ := exists_places hs
    refine ⟨h.attached_names hs, fun i hi => ⟨_, ?_, rfl, attaches h hn hg hp hi⟩⟩
    exact mem_ofKind_of_declares hg hp (.server hi)
  ports p hm := by
    obtain ⟨s, hints, hp, hd, hkind⟩ := declared_of_mem hg hm rfl
    obtain ⟨i, hi, n, hm', rfl⟩ := hd.of_port hkind
    exact ⟨_, soleUser_port h hn hg hp hi hm'⟩
  volumes v hm := by
    obtain ⟨s, hints, hp, hd, hkind⟩ := declared_of_mem hg hm rfl
    obtain ⟨i, hi, size, hv, rfl⟩ := hd.of_volume hkind
    exact ⟨s, hp.mem_servers, i, hi, size, hv, rfl, _, soleUser_volume h hn hg hp hi hv, rfl, rfl⟩
  floatingIps f hm := by
    obtain ⟨s, hints, hp, hd, hkind⟩ := declared_of_mem hg hm rfl
    obtain ⟨i, hi, n, hm', f, hf, hname, rfl⟩ := hd.of_floatingIp hkind
    exact ⟨s, hp.mem_servers, i, hi, rfl, _, soleUser_floatingIp h hn hg hp hi hm' hf hname, rfl, _,
      mem_ofKind_of_declares hg hp (.port hi hm'), rfl, _, soleUser_port h hn hg hp hi hm', rfl⟩
  flavors f hm := by
    obtain ⟨s, hints, hp, hd, hkind⟩ := declared_of_mem hg hm rfl
    obtain ⟨f, hf, rfl⟩ := hd.of_flavor hkind
    exact ⟨s, hp.mem_servers, rfl, fun r hr => refersTo_flavor_iff h hn hg hp.mem_servers hf hr⟩

end Topology

namespace Context
variable {c : Context} {g : Graph}

/-- The instances of a compiled context, all those that its declaration asks for, share nothing that they
are wired with. -/
theorem compile_wired {declared : ContextDeclaration} (h : Context.build declared = .ok c)
    (hg : c.compile.1 = .ok g) :
    (c.topology.declared = declared ∧ c.topology.WellFormed) ∧ g.Wired c.topology := by
  have hw := (build_ok h).2
  exact ⟨build_ok h, Topology.wired hw (nodup_of_compile hw hg) (resources_of_compile hg)⟩

theorem compile_wired_sample : ∃ c g, Context.build sampleDeclaration = .ok c ∧ c.compile.1 = .ok g ∧
    (c.topology.declared = sampleDeclaration ∧ c.topology.WellFormed) ∧ g.Wired c.topology := by
  obtain ⟨c, g, hc, hg⟩ := sample_compiles
  exact ⟨c, g, hc, hg, compile_wired hc hg⟩

end Context
end Provision
