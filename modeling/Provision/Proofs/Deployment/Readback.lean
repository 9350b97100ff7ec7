import Provision.Proofs.Layout.Ports
import Provision.Proofs.Layout.Requests
import Provision.Proofs.Layout.Resolution
import Provision.Proofs.Stack.Reporting

/-! What a deployment reads back. Everything that a context looks up in the outputs of its stack is asked
for when it is compiled, so that a backend that reports all outputs leaves nothing of it unknown. -/
namespace Provision

/-! The keys that are looked up. -/

namespace Context

/-- The keys for the interface behind a port. -/
def interfaceKeys (networks : List Network) (network port : String) : List String :=
  [port, port ++ "-mac_address"] ++
    match networks.find? fun n => n.name == network with
    | some n => [n.subnetName ++ "-cidr", n.subnetName ++ "-gateway_ip"]
    | none => []

/-- The keys for the addresses of a server with these ports. -/
def addressKeys (networks : List Network) (ports : SortedMap String) (s : Server) : List String :=
  [s.resourceName ++ "-id", s.resourceName] ++
    (s.floatingIp.map fun _ => floatingIpName s.resourceName).toList ++
    ports.entries.flatMap fun e => interfaceKeys networks e.1 e.2

/-- All keys that a context looks up in outputs. -/
def lookedUp (c : Context) : List String :=
  c.topology.networks.map (fun n => n.resourceName ++ "-id") ++
    c.topology.servers.flatMap fun s => addressKeys c.topology.networks (c.portsOf s) s

variable {c : Context} {networks : List Network} {outputs outputs' : SortedMap String}

theorem interfaceOf_congr {network port : String}
    (h : ∀ key ∈ interfaceKeys networks network port, outputs.find? key = outputs'.find? key) :
    interfaceOf networks outputs network port = interfaceOf networks outputs' network port := by
  unfold interfaceKeys at h
  unfold interfaceOf
  rw [h port (by simp), h (port ++ "-mac_address") (by simp)]
  cases hn : networks.find? fun n => n.name == network with
  | none => rfl
  | some n =>
    rw [hn] at h
    simp [h (n.subnetName ++ "-cidr") (by simp), h (n.subnetName ++ "-gateway_ip") (by simp)]

theorem addressesFrom_congr {ports : SortedMap String} {s : Server}
    (h : ∀ key ∈ addressKeys networks ports s, outputs.find? key = outputs'.find? key) :
    addressesFrom networks outputs ports s = addressesFrom networks outputs' ports s := by
  have hinterfaces : (ports.entries.map fun e => (e.1, interfaceOf networks outputs e.1 e.2)) =
      ports.entries.map fun e => (e.1, interfaceOf networks outputs' e.1 e.2) := by
    refine List.map_congr_left fun e he => ?_
    rw [interfaceOf_congr fun key hkey => h key ?_]
    exact List.mem_append_right _ (List.mem_flatMap.mpr ⟨e, he, hkey⟩)
  have hfloating : (s.floatingIp.bind fun _ => outputs.find? (floatingIpName s.resourceName)) =
      s.floatingIp.bind fun _ => outputs'.find? (floatingIpName s.resourceName) := by
    cases hf : s.floatingIp with
    | none => rfl
    | some f => exact h _ (by simp [addressKeys, hf])
  unfold addressesFrom
  rw [hinterfaces, hfloating, h (s.resourceName ++ "-id") (by simp [addressKeys]),
    h s.resourceName (by simp [addressKeys])]

/-- Outputs that agree on the keys that are looked up tell a context the same. -/
theorem applyOutputs_congr (h : ∀ key ∈ c.lookedUp, outputs.find? key = outputs'.find? key) :
    c.applyOutputs outputs = c.applyOutputs outputs' := by
  have hnetworks : ∀ n ∈ c.topology.networks, (outputs.find? (n.resourceName ++ "-id")).map (n.name, ·) =
      (outputs'.find? (n.resourceName ++ "-id")).map (n.name, ·) := fun n hn => by
    rw [h _ (List.mem_append_left _ (List.mem_map.mpr ⟨n, hn, rfl⟩))]
  have hservers : ∀ s ∈ c.topology.servers,
      (s.name, addressesFrom c.topology.networks outputs (c.portsOf s) s) =
        (s.name, addressesFrom c.topology.networks outputs' (c.portsOf s) s) := fun s hs => by
    rw [addressesFrom_congr fun key hkey => h key ?_]
    exact List.mem_append_right _ (List.mem_flatMap.mpr ⟨s, hs, hkey⟩)
  unfold applyOutputs
  rw [List.filterMap_congr hnetworks, List.map_congr_left hservers]

end Context

/-! Compiling asks for all of them. -/

namespace Topology
variable {t : Topology} {s : Server}

theorem server_outputs (h : t.WellFormed) (hs : s ∈ t.servers) :
    [s.resourceName, s.resourceName ++ "-id"] ⊆ t.outputNames := by
  have hplan := server_mem_plan hs (h.instances_pos hs)
  rw [← entryOutputs_server t.generatesKey]
  exact outputs_of_mem_plan hplan

theorem port_outputs (h : t.WellFormed) (hs : s ∈ t.servers) {network : String}
    (hn : network ∈ s.networks) : [portName s.resourceName network,
      portName s.resourceName network ++ "-mac_address"] ⊆ t.outputNames := by
  have hplan := port_mem_plan hs (h.instances_pos hs) hn
  rw [← entryOutputs_port t.generatesKey]
  exact outputs_of_mem_plan hplan

theorem floatingIp_output (h : t.WellFormed) (hs : s ∈ t.servers) {f : FloatingIp}
    (hf : s.floatingIp = some f) : floatingIpName s.resourceName ∈ t.outputNames := by
  have hplan := floatingIp_mem_plan hs (h.instances_pos hs) hf (h.floatingIp_network hs hf)
  refine outputs_of_mem_plan hplan ?_
  rw [entryOutputs_floatingIp]
  exact List.mem_singleton_self _

theorem interface_outputs (h : t.WellFormed) (hs : s ∈ t.servers) {network : String}
    (hn : network ∈ s.networks) :
    Context.interfaceKeys t.networks network (portName s.resourceName network) ⊆ t.outputNames := by
  refine List.append_subset.mpr ⟨port_outputs h hs hn, ?_⟩
  split
  · next n hfound =>
    refine List.Subset.trans ?_ (outputs_of_network (List.mem_of_find?_eq_some hfound))
    simp [Network.outputNames]
  · exact List.nil_subset _

/-- With the ports of the first instance a server is looked up under names that are asked for. -/
theorem address_outputs (h : t.WellFormed) (hs : s ∈ t.servers) :
    Context.addressKeys t.networks (s.firstPorts s.networks) s ⊆ t.outputNames := by
  have hserver := List.cons_subset.mp (server_outputs h hs)
  refine List.append_subset.mpr ⟨List.append_subset.mpr ⟨?_, ?_⟩, ?_⟩
  · exact List.cons_subset.mpr ⟨hserver.2 List.mem_cons_self,
      List.cons_subset.mpr ⟨hserver.1, List.nil_subset _⟩⟩
  · cases hf : s.floatingIp with
    | none => exact List.nil_subset _
    | some f => exact List.cons_subset.mpr ⟨floatingIp_output h hs hf, List.nil_subset _⟩
  · intro key hkey
    obtain ⟨e, he, hkey⟩ := List.mem_flatMap.mp hkey
    obtain ⟨network, hn, rfl⟩ := List.mem_map.mp (SortedMap.mem_of_mem_ofList he)
    exact interface_outputs h hs hn hkey

end Topology

namespace Context
variable {c c' : Context} {g : Graph}

theorem lookedUp_subset (hw : c.topology.WellFormed) (hc : c.compile = (.ok g, c')) :
    c'.lookedUp ⊆ g.outputs.keys := by
  obtain ⟨hsame, hports⟩ := compile_ok hw hc
  have htopology : c'.topology = c.topology := by rw [hsame]
  have hkeys : ∀ key ∈ c.topology.outputNames, key ∈ g.outputs.keys := fun key =>
    (mem_outputs_of_compile hw (congrArg Prod.fst hc) key).mpr
  intro key hkey
  refine hkeys key ?_
  rw [lookedUp, htopology] at hkey
  rcases List.mem_append.mp hkey with hkey | hkey
  · obtain ⟨n, hn, rfl⟩ := List.mem_map.mp hkey
    exact Topology.outputs_of_network hn (by simp [Network.outputNames])
  · obtain ⟨s, hs, hkey⟩ := List.mem_flatMap.mp hkey
    rw [hports s hs] at hkey
    exact Topology.address_outputs hw hs hkey

end Context

/-! What is known after a deployment. -/

/-- All that is to be known of an interface is known. -/
structure Interface.Filled (i : Interface) : Prop where
  privateIp : i.privateIp.isSome = true
  macAddress : i.macAddress.isSome = true
  subnetCidr : i.subnetCidr.isSome = true
  gatewayIp : i.gatewayIp.isSome = true

/-- All that is to be known of a server is known: a public address if it asks for one, and one interface
for each of its networks. -/
structure Addresses.Filled (a : Addresses) (s : Server) : Prop where
  id : a.id.isSome = true
  privateIp : a.privateIp.isSome = true
  publicIp : a.publicIp.isSome = true ↔ s.declared.floatingIp = true
  networks : a.interfaces.keys.Perm s.networks
  interfaces : ∀ e ∈ a.interfaces.entries, e.2.Filled

namespace Context
variable {c c' : Context} {g : Graph} {networks : List Network} {outputs : SortedMap String}

/-- All that is to be known of the networks and servers is known. -/
structure Filled (c : Context) : Prop where
  networks : ∀ n ∈ c.topology.networks, (c.networkId? n).isSome = true
  servers : ∀ s ∈ c.topology.servers, (c.addressesOf s).Filled s

theorem interface_filled {network port : String} (hn : network ∈ networks.map Network.name)
    (h : interfaceKeys networks network port ⊆ outputs.keys) :
    (interfaceOf networks outputs network port).Filled := by
  obtain ⟨n, -, hfound, -⟩ := Topology.find?_of_name hn
  have hkey : ∀ key ∈ interfaceKeys networks network port, (outputs.find? key).isSome = true :=
    fun key hkey => (outputs.find?_isSome key).mpr (h hkey)
  rw [interfaceKeys, hfound] at hkey
  refine ⟨hkey _ (by simp), hkey _ (by simp), ?_, ?_⟩
  · simp [interfaceOf, hfound, hkey]
  · simp [interfaceOf, hfound, hkey]

theorem addresses_filled {t : Topology} {s : Server} (hw : t.WellFormed) (hs : s ∈ t.servers)
    (hn : s.networks.Nodup) (h : addressKeys t.networks (s.firstPorts s.networks) s ⊆ outputs.keys) :
    (addressesFrom t.networks outputs (s.firstPorts s.networks) s).Filled s := by
  have hkey : ∀ key ∈ addressKeys t.networks (s.firstPorts s.networks) s,
      (outputs.find? key).isSome = true := fun key hkey => (outputs.find?_isSome key).mpr (h hkey)
  have hnetworks : ∀ network, network ∈ (s.firstPorts s.networks).keys ↔ network ∈ s.networks := by
    intro network
    simp [Server.firstPorts, SortedMap.mem_keys_ofList]
  refine ⟨hkey _ (by simp [addressKeys]), ?_, ?_, ?_, fun e he => ?_⟩
  · have hown := hkey s.resourceName (by simp [addressKeys])
    simp [addressesFrom, hown]
  · rw [← hw.floatingIp_isSome_iff hs]
    cases hf : s.floatingIp with
    | none => simp [addressesFrom, hf]
    | some f =>
      have hfloating := hkey (floatingIpName s.resourceName) (by simp [addressKeys, hf])
      simp [addressesFrom, hf, hfloating]
  · refine (List.perm_ext_iff_of_nodup (SortedMap.keys_nodup _) hn).mpr fun network => ?_
    rw [← hnetworks, addressesFrom, SortedMap.mem_keys_ofList, List.map_map]
    rfl
  · obtain ⟨port, hport, rfl⟩ := List.mem_map.mp (SortedMap.mem_of_mem_ofList he)
    have hnetwork := (hnetworks port.1).mp (List.mem_map_of_mem hport)
    refine interface_filled (hw.networks_known hs hnetwork) fun key hkey => h ?_
    exact List.mem_append_right _ (List.mem_flatMap.mpr ⟨port, hport, hkey⟩)

/-- Outputs that hold all that is looked up leave nothing unknown. -/
theorem applyOutputs_filled (hw : c.topology.WellFormed)
    (hn : ∀ s ∈ c.topology.servers, s.networks.Nodup)
    (hports : ∀ s ∈ c.topology.servers, c.portsOf s = s.firstPorts s.networks)
    (h : c.lookedUp ⊆ outputs.keys) : (c.applyOutputs outputs).Filled := by
  refine ⟨fun n hm => ?_, fun s hs => ?_⟩
  · have hid : (outputs.find? (n.resourceName ++ "-id")).isSome = true :=
      (outputs.find?_isSome _).mpr (h (List.mem_append_left _ (List.mem_map.mpr ⟨n, hm, rfl⟩)))
    obtain ⟨id, hid⟩ := Option.isSome_iff_exists.mp hid
    refine (SortedMap.find?_isSome _ _).mpr ((SortedMap.mem_keys_ofList _ _).mpr ?_)
    exact List.mem_map.mpr ⟨(n.name, id), List.mem_filterMap.mpr ⟨n, hm, by rw [hid]; rfl⟩, rfl⟩
  · have hnames : ((c.topology.servers.map fun s => (s.name,
        addressesFrom c.topology.networks outputs (c.portsOf s) s)).map Prod.fst).Nodup := by
      rw [List.map_map]
      exact hw.serverNames ▸ c.topology.declared.servers.nodup
    have hfound : (c.applyOutputs outputs).addressesOf s =
        addressesFrom c.topology.networks outputs (c.portsOf s) s := by
      have hfind := SortedMap.find?_ofList_of_nodup hnames (List.mem_map_of_mem hs)
      exact congrArg (Option.getD · {}) hfind
    rw [hfound, hports s hs]
    refine addresses_filled hw hs (hn s hs) fun key hkey => h ?_
    exact List.mem_append_right _ (List.mem_flatMap.mpr ⟨s, hs, (hports s hs).symm ▸ hkey⟩)

/-- A deployment that succeeds has compiled the context, created its stack and taken over the outputs. -/
theorem deploy_ok {σ : Type} {b : Backend σ} {m m' : Manager σ}
    (hd : c.deploy b m = ((.ok (), c'), m')) : ∃ g c₁ timeout stack, c.compile = (.ok g, c₁) ∧
      m.create b c₁.name g c₁.topology.declared.parameters (.blocking timeout) = (.ok stack, m') ∧
      c' = { c₁.applyOutputs stack.outputs with stack := some stack } := by
  unfold deploy at hd
  split at hd
  · cases hd
  · next g c₁ hc =>
    dsimp only at hd
    split at hd
    · cases hd
    · next stack m₁ hm =>
      cases hd
      exact ⟨g, c₁, _, stack, hc, hm, rfl⟩

/-- Whatever a context looks up in outputs after it was compiled is asked for in the graph, and nothing
else can change what it is told. So a deployment that succeeds on a backend that reports all outputs leaves
nothing unknown. -/
theorem deploy_fills {declared : ContextDeclaration} (h : Topology.build declared = .ok c.topology) :
    (∀ g c', c.compile = (.ok g, c') → c'.lookedUp ⊆ g.outputs.keys ∧
      ∀ outputs outputs', (∀ key ∈ c'.lookedUp, outputs.find? key = outputs'.find? key) →
        c'.applyOutputs outputs = c'.applyOutputs outputs') ∧
    ∀ (σ : Type) (b : Backend σ) (keeps : Handle → Graph → σ → Prop), b.Reports keeps →
      ∀ m c' m', c.deploy b m = ((.ok (), c'), m') → c'.topology = c.topology ∧ c'.Filled := by
  have hw := (Topology.wellFormed_of_build h).2
  refine ⟨fun g c' hc => ⟨lookedUp_subset hw hc, fun _ _ => applyOutputs_congr⟩, ?_⟩
  intro σ b keeps hb m c' m' hd
  obtain ⟨g, c₁, timeout, stack, hc, hm, rfl⟩ := deploy_ok hd
  obtain ⟨hsame, hports⟩ := compile_ok hw hc
  have htopology : c₁.topology = c.topology := by rw [hsame]
  have hnodup : ∀ s ∈ c.topology.servers, s.networks.Nodup := fun s hs => by
    rw [← hw.attached_names hs]
    exact Topology.networks_nodup hw (nodup_of_compile hw (congrArg Prod.fst hc)) hs
  have hcovered := List.Subset.trans (lookedUp_subset hw hc) (Manager.create_reports hb hm)
  rw [← htopology] at hw hnodup hports
  obtain ⟨hnetworks, hservers⟩ := applyOutputs_filled hw hnodup hports hcovered
  exact ⟨htopology, hnetworks, hservers⟩

/-- The sample is deployed on the simulation. -/
theorem deploy_fills_sample : ∃ c : Context, Topology.build sampleDeclaration = .ok c.topology ∧
    (∀ g c', c.compile = (.ok g, c') → c'.lookedUp ⊆ g.outputs.keys ∧
      ∀ outputs outputs', (∀ key ∈ c'.lookedUp, outputs.find? key = outputs'.find? key) →
        c'.applyOutputs outputs = c'.applyOutputs outputs') ∧
    ∃ c' m', c.deploy Simulation.backend ⟨{}, {}, [], 0, none, []⟩ = ((.ok (), c'), m') ∧ c'.Filled := by
  obtain ⟨c, hc⟩ := Checks.exists_ok
    (by decide +kernel : (Context.build sampleDeclaration).toOption.isSome = true)
  obtain ⟨t, ht, rfl⟩ := Checks.map_ok hc
  have hdeployed : ∀ c ∈ (Context.build sampleDeclaration).toOption,
      (c.deploy Simulation.backend ⟨{}, {}, [], 0, none, []⟩).1.1.toOption.isSome = true := by
    decide +kernel
  obtain ⟨hkeys, hfills⟩ := deploy_fills (c := { topology := t }) ht
  rcases hd : ({ topology := t } : Context).deploy Simulation.backend ⟨{}, {}, [], 0, none, []⟩ with
    ⟨⟨result, c'⟩, m'⟩
  replace hdeployed := hdeployed { topology := t } (by rw [hc]; rfl)
  rw [hd] at hdeployed
  obtain ⟨⟨⟩, rfl⟩ := Checks.exists_ok hdeployed
  exact ⟨_, ht, hkeys, c', m', hd, (hfills _ _ _ Simulation.reports _ _ _ hd).2⟩

end Context
end Provision
