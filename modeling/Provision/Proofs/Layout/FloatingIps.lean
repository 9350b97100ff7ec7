import Provision.Proofs.Layout.Wiring

/-! The floating addresses of a context. When a server is built, the external network is looked for in all
networks, and a way to it in those that the server is attached to. When the server is laid out, each
instance gets its address where its port on the network found comes by. -/
namespace Provision

open Json

/-- Where the floating addresses of the server come from: the external network is that of the first network
that has one, and the way to it is the first attached network whose router leads there. -/
structure FloatingIp.Chosen (f : FloatingIp) (t : Topology) (s : Server) (n : Network) (r : Router) :
    Prop where
  external : ∃ before first after, t.networks = before ++ first :: after ∧
    first.declared.externalNetwork = some f.externalNetwork ∧
    ∀ m ∈ before, m.declared.externalNetwork = none
  attached : ∃ before after, s.attached t.networks = before ++ n :: after ∧
    ∀ m ∈ before, ∀ r ∈ m.router?, r.externalNetwork ≠ f.externalNetwork
  name : n.name = f.network
  router : n.router? = some r
  gateway : r.externalNetwork = f.externalNetwork

theorem Network.hasRouteTo_iff {n : Network} {external : String} :
    n.hasRouteTo external = true ↔ ∃ r, n.router? = some r ∧ r.externalNetwork = external := by
  cases he : n.declared.externalNetwork <;> simp [hasRouteTo, router?, he]

/-- What was found for a server: both searches stop at the first network that will do. -/
theorem floatingIpFor_ok {dn context : String} {networks : List Network} {attached : List String}
    {f : FloatingIp} (h : floatingIpFor dn context networks attached = .ok f) :
    firstExternal? networks = some f.externalNetwork ∧
    ∃ n, (attached.filterMap fun name => networks.find? fun n => n.name == name).find?
      (fun n => n.hasRouteTo f.externalNetwork) = some n ∧ n.name = f.network := by
  simp only [floatingIpFor] at h
  split at h
  · cases h
  · next external hexternal =>
    split at h
    · next n hn =>
      cases h
      exact ⟨hexternal, n, hn, rfl⟩
    · cases h

namespace Topology
variable {t : Topology} {s : Server}

theorem Holds.floatingIp_chosen (h : t.WellFormed) (hs : s ∈ t.servers)
    (hwanted : s.declared.floatingIp = true) : ∃ f n r, s.floatingIp = some f ∧ f.Chosen t s n r := by
  obtain ⟨e, -, he⟩ := Checks.exists_of_forall₂ h.servers hs
  obtain ⟨-, -, hd, -, -, hf⟩ := Server.build_ok he
  rw [← hd, floatingIpOf, if_pos hwanted] at hf
  obtain ⟨f, hf, hsome⟩ := Checks.map_ok hf
  obtain ⟨hexternal, n, hn, hname⟩ := floatingIpFor_ok hf
  obtain ⟨before, first, after, hsplit, hfirst, hnone⟩ := List.findSome?_eq_some_iff.mp hexternal
  obtain ⟨hroute, earlier, later, hattached, hothers⟩ := List.find?_eq_some_iff_append.mp hn
  obtain ⟨r, hrouter, hgateway⟩ := Network.hasRouteTo_iff.mp hroute
  refine ⟨f, n, r, hsome.symm, ⟨before, first, after, hsplit, hfirst, hnone⟩,
    ⟨earlier, later, hattached, fun m hm r hr he => ?_⟩, hname, hrouter, hgateway⟩
  have hroute : m.hasRouteTo f.externalNetwork = true := Network.hasRouteTo_iff.mpr ⟨r, hr, he⟩
  simpa [hroute] using hothers m hm

end Topology

/-- What an instance has of its own for its floating address: the address, allocated from the external
network once the router is joined to the network, and its association with the port of the instance. -/
structure Graph.Floats (g : Graph) (s : Server) (f : FloatingIp) (n : Network) (r : Router) (i : ℕ) :
    Prop where
  router : n.routerResource r ∈ g.resources
  interface : n.interfaceResource r ∈ g.resources
  address : ⟨floatingIpName (s.instanceName i), .floatingIp,
    obj [("floating_network", str f.externalNetwork)], [r.interfaceName]⟩ ∈ g.resources
  association : ⟨associationName (s.instanceName i), .floatingIpAssociation,
    obj [("floatingip_id", resourceRef (floatingIpName (s.instanceName i))),
      ("port_id", resourceRef (portName (s.instanceName i) n.name))],
    [floatingIpName (s.instanceName i), portName (s.instanceName i) n.name]⟩ ∈ g.resources
  port : s.portResource n (portName (s.instanceName i) n.name) ∈ g.resources
  bearer : ∃ u, g.SoleUser .server (portName (s.instanceName i) n.name) u ∧ u.name = s.instanceName i

/-! The addresses that there are. -/

/-- What stands at one element of a list without repetitions stands there once. -/
theorem flatMap_ite_of_nodup {α β : Type} [DecidableEq α] {xs : List α} {a : α} (hn : xs.Nodup)
    (ha : a ∈ xs) (ys : List β) : (xs.flatMap fun x => if a = x then ys else []) = ys := by
  induction xs with
  | nil => cases ha
  | cons x rest ih =>
    obtain ⟨hx, hn⟩ := List.nodup_cons.mp hn
    rw [List.flatMap_cons]
    rcases List.mem_cons.mp ha with rfl | ha
    · have hrest : (rest.flatMap fun x => if a = x then ys else []) = [] :=
        List.flatMap_eq_nil_iff.mpr fun y hm => if_neg fun he : a = y => hx (he ▸ hm)
      rw [if_pos rfl, hrest, List.append_nil]
    · rw [if_neg fun he : a = x => hx (he ▸ ha), List.nil_append, ih hn ha]

namespace Server
variable {s : Server}

/-- A kind of which each instance has one where it passes the network of its floating address, under
the name that is made from the instance's. -/
structure ComesWithAddress (kind : ResourceKind) (named : String → String) : Prop where
  here : ∀ inst, ([(floatingIpName inst, ResourceKind.floatingIp),
    (associationName inst, .floatingIpAssociation)].filter fun e => e.2 = kind) = [(named inst, kind)]
  notElsewhere : kind ∉ [ResourceKind.port, .server, .flavor, .volume, .volumeAttachment]

theorem comesWithAddress_floatingIp : ComesWithAddress .floatingIp floatingIpName :=
  ⟨fun inst => by simp, by decide⟩

theorem comesWithAddress_association : ComesWithAddress .floatingIpAssociation associationName :=
  ⟨fun inst => by simp, by decide⟩

theorem namesOf_floating {kind : ResourceKind} {named : String → String} (hk : ComesWithAddress kind named)
    (hn : s.networks.Nodup) (hf : ∀ f ∈ s.floatingIp, f.network ∈ s.networks) :
    s.namesOf kind = if s.floatingIp.isSome then s.instanceNames.map named else [] := by
  obtain ⟨hhere, helse⟩ := hk
  simp only [List.mem_cons, List.not_mem_nil, or_false, not_or] at helse
  obtain ⟨hport, hserver, hflavor, hvolume, hattachment⟩ := helse
  have hports : ∀ inst, ((s.networks.flatMap (s.portPlan inst)).filter fun e => e.2 = kind) =
      if s.floatingIp.isSome then [(named inst, kind)] else [] := by
    intro inst
    have hplan : ∀ network, ((s.portPlan inst network).filter fun e => e.2 = kind) =
        if s.floatingIp.any (fun f => f.network = network) then [(named inst, kind)] else [] := by
      intro network
      rw [portPlan, List.filter_cons_of_neg (by simp [Ne.symm hport])]
      split
      · exact hhere inst
      · rfl
    rw [List.filter_flatMap]
    simp only [hplan]
    cases hfloating : s.floatingIp with
    | none => simp
    | some f => simpa using flatMap_ite_of_nodup hn (hf f hfloating) [(named inst, kind)]
  have hinstance : ∀ i, ((s.instancePlan i).filter fun e => e.2 = kind) =
      if s.floatingIp.isSome then [(named (s.instanceName i), kind)] else [] := by
    intro i
    by_cases hv : s.makesVolume = true <;> by_cases ha : s.declared.volume.isSome = true <;>
      simp [instancePlan, List.filter_append, hports, hv, ha, Ne.symm hserver, Ne.symm hvolume,
        Ne.symm hattachment]
  have hown : ((if s.makesFlavor then [(s.flavorName, ResourceKind.flavor)] else []).filter fun e =>
      e.2 = kind) = [] := by
    split <;> simp [Ne.symm hflavor]
  simp only [namesOf, plan, List.filter_append, hown, List.nil_append, List.filter_flatMap, hinstance]
  split
  · rw [← List.map_eq_flatMap, List.map_map, instanceNames, List.map_map]
    rfl
  · simp

end Server

namespace Topology
variable {t : Topology} {s : Server} {g : Graph}

/-- The servers that ask for a floating address have one for each instance, and the others have none. -/
theorem names_floating (h : t.WellFormed) (hn : (t.plan.map Prod.fst).Nodup)
    (hg : g.resources = resourcesOf t.steps) {kind : ResourceKind} {named : String → String}
    (hk : Server.ComesWithAddress kind named) (hs : kind.ofServer = true) :
    (g.ofKind kind).map Resource.name = t.placementOrder.flatMap fun s =>
      if s.declared.floatingIp = true then s.instanceNames.map named else [] := by
  rw [Graph.ofKind, hg, names_ofKind h hs]
  refine List.flatMap_congr fun s hs => ?_
  have hs := mem_placementOrder.mp hs
  have hnetworks : s.networks.Nodup := h.attached_names hs ▸ networks_nodup h hn hs
  rw [Server.namesOf_floating hk hnetworks fun f hf => h.floatingIp_network hs hf]
  simp only [h.floatingIp_isSome_iff hs]

theorem floats (h : t.WellFormed) (hn : (t.plan.map Prod.fst).Nodup)
    (hg : g.resources = resourcesOf t.steps) (hs : s ∈ t.servers) {f : FloatingIp} {n : Network}
    {r : Router} (hf : s.floatingIp = some f) (hc : f.Chosen t s n r) {i : ℕ} (hi : i < s.instances) :
    g.Floats s f n r i := by
  obtain ⟨hints, hp⟩ := exists_places hs
  obtain ⟨before, after, hattached, -⟩ := hc.attached
  have hm : n ∈ s.attached t.networks := by simp [hattached]
  have hsteps : ∀ {r : Resource}, s.Declares (s.attached t.networks) hints r → r ∈ g.resources := fun hd =>
    hg ▸ mem_steps_iff.mpr (Or.inr ⟨s, hints, hp, hd⟩)
  have hnetwork : ∀ {d : Resource}, d ∈ resourcesOf n.steps → d ∈ g.resources := fun hd =>
    hg ▸ network_resources_subset (Holds.mem_networks_of_attached hm) hd
  have haddress := hsteps (.floatingIp hi hm hf hc.name.symm)
  rw [Server.floatingIpResource, hc.router] at haddress
  exact {
    router := hnetwork (by simp [Network.steps, Network.routerSteps, hc.router])
    interface := hnetwork (by simp [Network.steps, Network.routerSteps, hc.router])
    address := haddress
    association := hsteps (.association hi hm hf hc.name.symm)
    port := hsteps (.port hi hm)
    bearer := ⟨_, soleUser_port h hn hg hp hi hm, rfl⟩ }

end Topology

namespace Context
variable {c : Context} {g : Graph}

/-- A server that asks for floating addresses has them from the first external network, by way of the
first of its networks with a router to it. In a compiled graph these are the floating addresses and the
associations that there are, one for each instance of such a server, and what is on record are the names
for the first instance. -/
theorem compile_floatingIps {declared : ContextDeclaration} (h : Context.build declared = .ok c) :
    (c.topology.declared = declared ∧ c.topology.WellFormed) ∧
    (∀ s ∈ c.topology.servers, s.declared.floatingIp = true → ∃ f n r, s.floatingIp = some f ∧
      f.Chosen c.topology s n r ∧ s.floatingIpName? = some (floatingIpName (s.instanceName 0)) ∧
      s.associationName? = some (associationName (s.instanceName 0)) ∧
      ∀ g, c.compile.1 = .ok g → ∀ i < s.instances, g.Floats s f n r i) ∧
    ∀ g, c.compile.1 = .ok g → (g.resources.map Resource.name).Nodup ∧
      ((g.ofKind .floatingIp).map Resource.name = c.topology.placementOrder.flatMap fun s =>
        if s.declared.floatingIp = true then s.instanceNames.map floatingIpName else []) ∧
      (g.ofKind .floatingIpAssociation).map Resource.name = c.topology.placementOrder.flatMap fun s =>
        if s.declared.floatingIp = true then s.instanceNames.map associationName else [] := by
  obtain ⟨hdeclared, hw⟩ := build_ok h
  refine ⟨⟨hdeclared, hw⟩, fun s hs hwanted => ?_, fun g hg => ?_⟩
  · obtain ⟨f, n, r, hf, hc⟩ := hw.floatingIp_chosen hs hwanted
    refine ⟨f, n, r, hf, hc, by simp [Server.floatingIpName?, hf, Server.instanceName],
      by simp [Server.associationName?, hf, Server.instanceName], fun g hg i hi => ?_⟩
    exact Topology.floats hw (nodup_of_compile hw hg) (resources_of_compile hg) hs hf hc hi
  · have hn := nodup_of_compile hw hg
    have hresources := resources_of_compile hg
    refine ⟨names_nodup_of_compile hw hg, ?_, ?_⟩
    · exact Topology.names_floating hw hn hresources Server.comesWithAddress_floatingIp rfl
    · exact Topology.names_floating hw hn hresources Server.comesWithAddress_association rfl

/-- A server on three networks of four. The first of its networks has a router, but the external network
of the context is that of another one. -/
def routedDeclaration : ContextDeclaration where
  name := "demo"
  networks := .ofList [("lan", {}), ("dmz", { externalNetwork := some "wan" }),
    ("mgmt", { externalNetwork := some "public" }), ("backup", { externalNetwork := some "wan" })]
  servers := .ofList [
    ("edge", { instances := 2, floatingIp := true, networks := some ["mgmt", "backup", "dmz"] }),
    ("store", {})]

theorem compile_floatingIps_sample : ∃ c g, Context.build routedDeclaration = .ok c ∧
    c.compile.1 = .ok g ∧
    c.topology.servers.map Server.floatingIp = [some ⟨"wan", "backup"⟩, none] ∧
    (∀ s ∈ c.topology.servers, s.declared.floatingIp = true → ∃ f n r, s.floatingIp = some f ∧
      f.Chosen c.topology s n r ∧ ∀ i < s.instances, g.Floats s f n r i) ∧
    (g.ofKind .floatingIp).map Resource.name = ["edge.demo-fip", "edge.demo-1-fip"] := by
  obtain ⟨c, hc⟩ := Checks.exists_ok
    (by decide +kernel : (Context.build routedDeclaration).toOption.isSome = true)
  have hvalues : ∀ c ∈ (Context.build routedDeclaration).toOption,
      c.compile.1.toOption.isSome = true ∧
      c.topology.servers.map Server.floatingIp = [some ⟨"wan", "backup"⟩, none] ∧
      (c.topology.placementOrder.flatMap fun s =>
        if s.declared.floatingIp = true then s.instanceNames.map floatingIpName else []) =
          ["edge.demo-fip", "edge.demo-1-fip"] := by decide +kernel
  obtain ⟨hcompiles, hchosen, hnames⟩ := hvalues c (by rw [hc]; rfl)
  obtain ⟨g, hg⟩ := Checks.exists_ok hcompiles
  obtain ⟨-, hfloats, hlists⟩ := compile_floatingIps hc
  refine ⟨c, g, hc, hg, hchosen, fun s hs hwanted => ?_, (hlists g hg).2.1.trans hnames⟩
  obtain ⟨f, n, r, hf, hfor, -, -, hall⟩ := hfloats s hs hwanted
  exact ⟨f, n, r, hf, hfor, hall g hg⟩

end Context
end Provision
