import Provision.Proofs.Deployment.Recompilation

/-! Outputs that are taken over leave nothing of earlier ones. Piece by piece every id, address and interface is
given anew, also where the outputs do not tell it, and this comes to the same as forgetting all that was known
before; what is known afterwards is told exactly. -/
namespace Provision

/-! Tables that are written anew, key by key. -/

namespace SortedMap
variable {α β : Type} {name : β → String} {f : β → Option α} {xs : List β}

def erase (m : SortedMap α) (key : String) : SortedMap α :=
  ⟨m.entries.filter fun e => e.1 != key, m.sorted.filter _⟩

/-- Gives the key the value, or takes the key out where there is none. -/
def assign (m : SortedMap α) (key : String) : Option α → SortedMap α
  | some value => m.insert key value
  | none => m.erase key

theorem find?_erase (m : SortedMap α) (key x : String) :
    (m.erase key).find? x = if x = key then none else m.find? x := by
  rw [find?, erase, List.find?_filter, find?]
  by_cases hx : x = key
  · simp [hx]
  · rw [if_neg hx]
    congr 2
    funext e
    by_cases he : e.1 = x <;> simp [he, hx]

@[simp] theorem find?_assign (m : SortedMap α) (key x : String) (value : Option α) :
    (m.assign key value).find? x = if x = key then value else m.find? x := by
  cases value with
  | none => exact m.find?_erase key x
  | some value => exact m.find?_insert key x value

theorem keys_filterMap_sublist (name : β → String) (f : β → Option α) (xs : List β) :
    ((xs.filterMap fun b => (f b).map (name b, ·)).map Prod.fst).Sublist (xs.map name) := by
  induction xs with
  | nil => exact .refl _
  | cons b xs ih =>
    cases hf : f b with
    | none => simpa [List.filterMap_cons, hf] using ih.cons _
    | some value => simpa [List.filterMap_cons, hf] using ih

/-- A table that is made from what there is for some names finds just that. -/
theorem find?_ofList_filterMap (h : (xs.map name).Nodup) {x : String} {value : α} :
    (ofList (xs.filterMap fun b => (f b).map (name b, ·))).find? x = some value ↔
      ∃ b ∈ xs, name b = x ∧ f b = some value := by
  constructor
  · intro hfound
    obtain ⟨b, hb, he⟩ := List.mem_filterMap.mp (mem_of_mem_ofList (find?_eq_some.mp hfound))
    obtain ⟨_, hvalue, he⟩ := Option.map_eq_some_iff.mp he
    cases he
    exact ⟨b, hb, rfl, hvalue⟩
  · rintro ⟨b, hb, rfl, hvalue⟩
    have hkeys := h.sublist (keys_filterMap_sublist name f xs)
    have hentry : (name b, value) ∈ xs.filterMap fun b => (f b).map (name b, ·) :=
      List.mem_filterMap.mpr ⟨b, hb, by rw [hvalue]; rfl⟩
    exact find?_ofList_of_nodup hkeys hentry

/-- Where names are written anew, these find what there is for them and the others what they found before. -/
theorem find?_foldl_assign (h : (xs.map name).Nodup) (m : SortedMap α) {x : String} {value : α} :
    (xs.foldl (fun m b => m.assign (name b) (f b)) m).find? x = some value ↔
      (∃ b ∈ xs, name b = x ∧ f b = some value) ∨ (x ∉ xs.map name ∧ m.find? x = some value) := by
  induction xs generalizing m with
  | nil => simp
  | cons b xs ih =>
    obtain ⟨hb, hxs⟩ := List.nodup_cons.mp h
    rw [List.foldl_cons, ih hxs, find?_assign]
    by_cases hx : x = name b
    · subst hx
      have hother : ¬ ∃ b' ∈ xs, name b' = name b ∧ f b' = some value :=
        fun ⟨b', hb', hname, _⟩ => hb (hname ▸ List.mem_map_of_mem hb')
      simp [hb, hother]
    · simp [hx, Ne.symm hx]

/-- Writing all names of a table anew is the same as making the table again. -/
theorem foldl_assign_eq_ofList (h : (xs.map name).Nodup) {m : SortedMap α} (hm : m.keys ⊆ xs.map name) :
    xs.foldl (fun m b => m.assign (name b) (f b)) m =
      ofList (xs.filterMap fun b => (f b).map (name b, ·)) := by
  refine ext_find? fun x => Option.ext fun value => ?_
  have hold : ¬ (x ∉ xs.map name ∧ m.find? x = some value) := fun ⟨hx, hfound⟩ =>
    hx (hm ((m.find?_isSome x).mp (by rw [hfound]; rfl)))
  rw [find?_foldl_assign h, find?_ofList_filterMap h, or_iff_left hold]

theorem filterMap_some (name : β → String) (g : β → α) (xs : List β) :
    (xs.filterMap fun b => (some (g b)).map (name b, ·)) = xs.map fun b => (name b, g b) := by
  simp

theorem find?_ofList_map {g : β → α} (h : (xs.map name).Nodup) {b : β} (hb : b ∈ xs) :
    (ofList (xs.map fun b => (name b, g b))).find? (name b) = some (g b) := by
  rw [← filterMap_some]
  exact (find?_ofList_filterMap h).mpr ⟨b, hb, rfl, rfl⟩

/-- A table in which every value is replaced. -/
theorem find?_ofList_entries (m : SortedMap β) (g : String → β → α) (x : String) :
    (ofList (m.entries.map fun e => (e.1, g e.1 e.2))).find? x = (m.find? x).map (g x) := by
  refine Option.ext fun value => ?_
  have hentries := filterMap_some Prod.fst (fun e : String × β => g e.1 e.2) m.entries
  rw [← hentries, find?_ofList_filterMap m.keys_nodup, Option.map_eq_some_iff]
  constructor
  · rintro ⟨e, he, rfl, hvalue⟩
    exact ⟨e.2, find?_eq_some.mpr he, Option.some.inj hvalue⟩
  · rintro ⟨v, hv, rfl⟩
    exact ⟨(x, v), find?_eq_some.mp hv, rfl, rfl⟩

end SortedMap

/-! Taking over outputs piece by piece. -/

def Addresses.addInterface (known : Addresses) (network : String) (i : Interface) : Addresses :=
  { known with interfaces := known.interfaces.insert network i }

/-- Each of the addresses is given anew in its turn: the id, one interface after the other, the private address,
which is that of the first network or else that of the server, and the public one. -/
def Addresses.renew (networks : List Network) (outputs ports : SortedMap String) (s : Server)
    (known : Addresses) : Addresses :=
  let known := { known with id := outputs.find? (s.resourceName ++ "-id"), interfaces := ∅ }
  let known := ports.entries.foldl (fun known e =>
    known.addInterface e.1 (Context.interfaceOf networks outputs e.1 e.2)) known
  let ofFirst := (s.networks.head?.bind known.interfaces.find?).bind Interface.privateIp
  let known := { known with privateIp := ofFirst <|> outputs.find? s.resourceName }
  { known with publicIp := s.floatingIp.bind fun _ => outputs.find? (floatingIpName s.resourceName) }

theorem Addresses.foldl_addInterface (f : String → String → Interface) (es : List (String × String))
    (known : Addresses) :
    es.foldl (fun known e => known.addInterface e.1 (f e.1 e.2)) known =
      ⟨known.id, known.publicIp, known.privateIp,
        es.foldl (fun m e => m.insert e.1 (f e.1 e.2)) known.interfaces⟩ := by
  induction es generalizing known with
  | nil => rfl
  | cons e es ih => exact ih _

/-- None of the addresses that were known is kept. -/
theorem Addresses.renew_eq (networks : List Network) (outputs ports : SortedMap String) (s : Server)
    (known : Addresses) :
    known.renew networks outputs ports s = Context.addressesFrom networks outputs ports s := by
  simp only [renew, foldl_addInterface, Context.addressesFrom, SortedMap.ofList, List.foldl_map]

namespace Context
variable {start c : Context} {outputs : SortedMap String}

def renewNetwork (outputs : SortedMap String) (c : Context) (n : Network) : Context :=
  { c with networkIds := c.networkIds.assign n.name (outputs.find? (n.resourceName ++ "-id")) }

def renewServer (outputs : SortedMap String) (c : Context) (s : Server) : Context :=
  let addresses := (c.addressesOf s).renew c.topology.networks outputs (c.portsOf s) s
  { c with addresses := c.addresses.insert s.name addresses }

/-- Takes over outputs network by network, then server by server, each in the place of what is known of it. -/
def renew (c : Context) (outputs : SortedMap String) : Context :=
  c.topology.servers.foldl (renewServer outputs) (c.topology.networks.foldl (renewNetwork outputs) c)

theorem foldl_renewNetwork (networks : List Network) (c : Context) :
    networks.foldl (renewNetwork outputs) c = ⟨c.topology, c.ports,
      networks.foldl (fun m n => m.assign n.name (outputs.find? (n.resourceName ++ "-id"))) c.networkIds,
      c.addresses, c.stack⟩ := by
  induction networks generalizing c with
  | nil => rfl
  | cons n networks ih => exact ih _

theorem foldl_renewServer (servers : List Server) (c : Context) :
    servers.foldl (renewServer outputs) c = ⟨c.topology, c.ports, c.networkIds,
      servers.foldl (fun m s => m.assign s.name
        (some (addressesFrom c.topology.networks outputs (c.portsOf s) s))) c.addresses, c.stack⟩ := by
  induction servers generalizing c with
  | nil => rfl
  | cons s servers ih =>
    rw [List.foldl_cons, ih, renewServer, Addresses.renew_eq]
    rfl

/-- What is known is known of networks and servers of the topology. -/
structure Tidy (c : Context) : Prop where
  networks : c.networkIds.keys ⊆ c.topology.networks.map Network.name
  servers : c.addresses.keys ⊆ c.topology.servers.map Server.name

theorem tidy_applyOutputs (c : Context) (outputs : SortedMap String) : (c.applyOutputs outputs).Tidy where
  networks := fun name hname => by
    have hlisted := (SortedMap.mem_keys_ofList _ _).mp hname
    exact (SortedMap.keys_filterMap_sublist _ _ _).subset hlisted
  servers := fun name hname => by
    have hlisted := (SortedMap.mem_keys_ofList _ _).mp hname
    rwa [List.map_map] at hlisted

theorem Tidy.compile (h : c.Tidy) : c.compile.2.Tidy := ⟨h.networks, h.servers⟩

theorem Tidy.deploy {σ : Type} (b : Backend σ) (m : Manager σ) (h : c.Tidy) : (c.deploy b m).1.2.Tidy := by
  have hcompile := h.compile
  unfold Context.deploy
  split
  · next e c' hc => rwa [hc] at hcompile
  · next g c' hc =>
    rw [hc] at hcompile
    dsimp only
    split
    · exact hcompile
    · next stack m' hm =>
      obtain ⟨hnetworks, hservers⟩ := c'.tidy_applyOutputs stack.outputs
      exact ⟨hnetworks, hservers⟩

theorem Tidy.undeploy {σ : Type} (b : Backend σ) (m : Manager σ) (h : c.Tidy) :
    (c.undeploy b m).1.2.Tidy := by
  unfold Context.undeploy
  split
  · exact h
  · exact ⟨h.networks, h.servers⟩

/-- Whatever is done with a context, nothing gets known of networks and servers that it does not have. -/
theorem Reached.tidy (h : start.Reached c) (hs : start.Tidy) : c.Tidy := by
  induction h with
  | refl => exact hs
  | compile _ ih => exact ih.compile
  | applyOutputs outputs _ _ => exact tidy_applyOutputs _ outputs
  | deploy b m _ ih => exact ih.deploy b m
  | undeploy b m _ ih => exact ih.undeploy b m

theorem tidy_of_build {declared : ContextDeclaration} (h : Context.build declared = .ok start) :
    start.Tidy := by
  obtain ⟨t, -, rfl⟩ := Checks.map_ok h
  exact ⟨List.nil_subset _, List.nil_subset _⟩

/-- Piece by piece comes to the same as all at once. -/
theorem renew_eq_applyOutputs (hw : c.topology.WellFormed) (hc : c.Tidy) (outputs : SortedMap String) :
    c.renew outputs = c.applyOutputs outputs := by
  have hservers : (c.topology.servers.map Server.name).Nodup :=
    hw.serverNames ▸ c.topology.declared.servers.nodup
  rw [renew, foldl_renewNetwork, foldl_renewServer,
    SortedMap.foldl_assign_eq_ofList (Topology.Holds.networkNames_nodup hw) hc.networks,
    SortedMap.foldl_assign_eq_ofList hservers hc.servers, SortedMap.filterMap_some]
  rfl

/-! What is known afterwards. -/

/-- The addresses are those that the outputs tell for the server, and there are none that they do not tell. -/
structure Told (c : Context) (outputs : SortedMap String) (s : Server) (a : Addresses) : Prop where
  id : a.id = outputs.find? (s.resourceName ++ "-id")
  publicIp : a.publicIp =
    if s.declared.floatingIp = true then outputs.find? (floatingIpName s.resourceName) else none
  privateIp : a.privateIp = ((s.networks.head?.bind (c.portsOf s).find?).bind outputs.find? <|>
    outputs.find? s.resourceName)
  interfaces : ∀ n ∈ c.topology.networks, a.interfaces.find? n.name =
    ((c.portsOf s).find? n.name).map fun port =>
      { privateIp := outputs.find? port
        macAddress := outputs.find? (port ++ "-mac_address")
        subnetCidr := outputs.find? (n.subnetName ++ "-cidr")
        gatewayIp := outputs.find? (n.subnetName ++ "-gateway_ip") }
  networks : ∀ network, network ∈ a.interfaces.keys ↔ network ∈ (c.portsOf s).keys

theorem interfaces_addressesFrom (networks : List Network) (outputs ports : SortedMap String) (s : Server)
    (network : String) : (addressesFrom networks outputs ports s).interfaces.find? network =
      (ports.find? network).map (interfaceOf networks outputs network) :=
  SortedMap.find?_ofList_entries ports (interfaceOf networks outputs) network

theorem told_addressesFrom (hw : c.topology.WellFormed) {s : Server} (hs : s ∈ c.topology.servers)
    (outputs : SortedMap String) :
    c.Told outputs s (addressesFrom c.topology.networks outputs (c.portsOf s) s) where
  id := rfl
  publicIp := by
    have hfloating := hw.floatingIp_isSome_iff hs
    cases hf : s.floatingIp with
    | none => simp_all [addressesFrom]
    | some f => simp_all [addressesFrom]
  privateIp := by
    refine congrArg (· <|> outputs.find? s.resourceName) ?_
    cases s.networks.head? with
    | none => rfl
    | some first =>
      have hfirst := congrArg (Option.bind · Interface.privateIp)
        (interfaces_addressesFrom c.topology.networks outputs (c.portsOf s) s first)
      rw [Option.bind_map] at hfirst
      exact hfirst
  interfaces n hn := by
    have hfound : (c.topology.networks.find? fun m => m.name == n.name) = some n :=
      (find?_iff_of_nodup (Topology.Holds.networkNames_nodup hw)).mpr ⟨hn, rfl⟩
    rw [interfaces_addressesFrom]
    congr 1
    funext port
    simp [interfaceOf, hfound]
  networks network := by
    rw [← SortedMap.find?_isSome, interfaces_addressesFrom, Option.isSome_map, SortedMap.find?_isSome]

theorem networkId?_applyOutputs (hw : c.topology.WellFormed) {n : Network} (hn : n ∈ c.topology.networks)
    (outputs : SortedMap String) :
    (c.applyOutputs outputs).networkId? n = outputs.find? (n.resourceName ++ "-id") := by
  refine Option.ext fun id => ?_
  have hnames := Topology.Holds.networkNames_nodup hw
  rw [networkId?, applyOutputs, SortedMap.find?_ofList_filterMap hnames]
  constructor
  · rintro ⟨m, hm, hname, hid⟩
    rwa [← List.inj_on_of_nodup_map hnames hm hn hname]
  · exact fun hid => ⟨n, hn, rfl, hid⟩

theorem addressesOf_applyOutputs (hw : c.topology.WellFormed) {s : Server} (hs : s ∈ c.topology.servers)
    (outputs : SortedMap String) : (c.applyOutputs outputs).addressesOf s =
      addressesFrom c.topology.networks outputs (c.portsOf s) s := by
  have hservers : (c.topology.servers.map Server.name).Nodup :=
    hw.serverNames ▸ c.topology.declared.servers.nodup
  rw [addressesOf, applyOutputs, SortedMap.find?_ofList_map hservers hs]
  rfl

/-- Outputs that are taken over leave nothing of what earlier ones told, and change nothing but what is known of
networks and servers. In a context that was built, whatever was done with it since, taking them over piece by piece
comes to the same; every id, address and interface is then the one that the outputs tell, if they tell one. -/
theorem applyOutputs_renews (c : Context) (outputs : SortedMap String) :
    (∀ earlier, (c.applyOutputs earlier).applyOutputs outputs = c.applyOutputs outputs) ∧
    (c.applyOutputs outputs).applyOutputs outputs = c.applyOutputs outputs ∧
    c.applyOutputs outputs = { c with
      networkIds := (c.applyOutputs outputs).networkIds
      addresses := (c.applyOutputs outputs).addresses } ∧
    ∀ declared start, Context.build declared = .ok start → start.Reached c →
      c.renew outputs = c.applyOutputs outputs ∧
      (∀ earlier, (c.renew earlier).renew outputs = c.renew outputs) ∧
      (∀ n ∈ c.topology.networks,
        (c.applyOutputs outputs).networkId? n = outputs.find? (n.resourceName ++ "-id")) ∧
      ∀ s ∈ c.topology.servers, c.Told outputs s ((c.applyOutputs outputs).addressesOf s) := by
  refine ⟨fun _ => rfl, rfl, rfl, fun declared start h hc => ?_⟩
  have hw : c.topology.WellFormed := hc.topology_eq ▸ (build_ok h).2
  have hrenew : ∀ outputs, c.renew outputs = c.applyOutputs outputs :=
    renew_eq_applyOutputs hw (hc.tidy (tidy_of_build h))
  refine ⟨hrenew outputs, fun earlier => ?_, fun n hn => networkId?_applyOutputs hw hn outputs,
    fun s hs => ?_⟩
  · rw [hrenew earlier, hrenew outputs]
    exact renew_eq_applyOutputs (c := c.applyOutputs earlier) hw (c.tidy_applyOutputs earlier) outputs
  · rw [addressesOf_applyOutputs hw hs]
    exact told_addressesFrom hw hs outputs

/-- All that can be told of a server and its network but the interface. -/
def fullOutputs : SortedMap String := .ofList [("demo-mgmt-id", "net-1"), ("web.demo-id", "id-1"),
  ("web.demo", "10.0.0.9"), ("web.demo-fip", "172.24.4.11")]

/-- No more than the address of the server's port. -/
def scantOutputs : SortedMap String := .ofList [("web.demo-mgmt-port", "10.0.1.5")]

theorem applyOutputs_renews_sample : ∃ start c : Context, Context.build sampleDeclaration = .ok start ∧
    start.Reached c ∧
    (∃ s ∈ c.topology.servers, (c.addressesOf s).publicIp = some "172.24.4.11" ∧
      (c.addressesOf s).privateIp = some "10.0.0.9" ∧
      (c.applyOutputs scantOutputs).addressesOf s =
        ⟨none, none, some "10.0.1.5", .ofList [("mgmt", ⟨some "10.0.1.5", none, none, none⟩)]⟩) ∧
    (∀ earlier, (c.applyOutputs earlier).applyOutputs scantOutputs = c.applyOutputs scantOutputs) ∧
    c.renew scantOutputs = c.applyOutputs scantOutputs ∧
    (∀ earlier, (c.renew earlier).renew scantOutputs = c.renew scantOutputs) ∧
    (∀ n ∈ c.topology.networks,
      (c.applyOutputs scantOutputs).networkId? n = scantOutputs.find? (n.resourceName ++ "-id")) ∧
    ∀ s ∈ c.topology.servers, c.Told scantOutputs s ((c.applyOutputs scantOutputs).addressesOf s) := by
  obtain ⟨start, hstart⟩ := Checks.exists_ok
    (by decide +kernel : (Context.build sampleDeclaration).toOption.isSome = true)
  have hserver : ∀ start ∈ (Context.build sampleDeclaration).toOption,
      ∃ s ∈ start.topology.servers,
        ((start.compile.2.applyOutputs fullOutputs).addressesOf s).publicIp = some "172.24.4.11" ∧
        ((start.compile.2.applyOutputs fullOutputs).addressesOf s).privateIp = some "10.0.0.9" ∧
        ((start.compile.2.applyOutputs fullOutputs).applyOutputs scantOutputs).addressesOf s =
          ⟨none, none, some "10.0.1.5", .ofList [("mgmt", ⟨some "10.0.1.5", none, none, none⟩)]⟩ := by
    decide +kernel
  have hreached : start.Reached (start.compile.2.applyOutputs fullOutputs) := .applyOutputs _ (.compile .refl)
  obtain ⟨hlast, -, -, hbuilt⟩ :=
    applyOutputs_renews (start.compile.2.applyOutputs fullOutputs) scantOutputs
  exact ⟨start, _, hstart, hreached, hserver start (by rw [hstart]; rfl), hlast,
    hbuilt _ _ hstart hreached⟩

end Context
end Provision
