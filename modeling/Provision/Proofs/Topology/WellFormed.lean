import Mathlib.Data.List.Nodup
import Provision.Proofs.Topology.Membership

/-! What holds of every topology that was built: its parts are those of the declaration, every name
that a server uses is declared, and the members of a group are the servers that name it. -/
namespace Provision

theorem attachedNames_ok {dn : String} {networks : List Network} {wanted : Option (List String)}
    {names : List String} (h : attachedNames dn networks wanted = .ok names) :
    names = wanted.getD (networks.map Network.name) ∧ names ⊆ networks.map Network.name := by
  cases wanted with
  | none =>
    cases h
    exact ⟨rfl, List.Subset.refl _⟩
  | some wanted =>
    simp only [attachedNames] at h
    split at h
    · cases h
    · next hnone =>
      cases h
      refine ⟨rfl, fun name hname => ?_⟩
      simpa using List.find?_eq_none.mp hnone name hname

theorem floatingIpFor_network {dn context : String} {networks : List Network} {attached : List String}
    {f : FloatingIp} (h : floatingIpFor dn context networks attached = .ok f) :
    f.network ∈ attached := by
  simp only [floatingIpFor] at h
  split at h
  · cases h
  · split at h
    · next n hn =>
      cases h
      obtain ⟨name, hname, hfound⟩ := List.mem_filterMap.mp (List.mem_of_find?_eq_some hn)
      have hsame : n.name = name := by simpa using List.find?_some hfound
      exact hsame ▸ hname
    · cases h

/-- The floating address of a server that asks for one. -/
def floatingIpOf (dn context : String) (networks : List Network) (attached : List String)
    (wanted : Bool) : Except TopologyError (Option FloatingIp) :=
  if wanted = true then some <$> floatingIpFor dn context networks attached else pure none

/-- A server that was built: all its checks passed, and it holds what they gave. -/
theorem Server.build_ok {defaults : ServerDefaults} {networks : List Network} {name : String}
    {declared : ServerDeclaration} {s : Server}
    (h : Server.build defaults networks name declared = .ok s) :
    s.name = name ∧ s.context = defaults.context ∧ s.declared = declared ∧
      declared.instances ≠ 0 ∧
      attachedNames s.dn networks declared.networks = .ok s.networks ∧
      floatingIpOf s.dn s.context networks s.networks declared.floatingIp = .ok s.floatingIp := by
  dsimp only [Server.build] at h
  by_cases hi : declared.instances = 0
  · rw [if_pos hi] at h
    cases h
  · rw [if_neg hi] at h
    obtain ⟨attached, ha, h⟩ := Checks.bind_ok h
    by_cases hf : declared.floatingIp = true
    · rw [if_pos hf] at h
      obtain ⟨floating, hfloating, h⟩ := Checks.bind_ok h
      cases h
      exact ⟨rfl, rfl, rfl, hi, ha, (if_pos hf).trans hfloating⟩
    · rw [if_neg hf] at h
      cases h
      exact ⟨rfl, rfl, rfl, hi, ha, if_neg hf⟩

theorem Network.build_ok {context name : String} {declared : NetworkDeclaration} {n : Network}
    (h : Network.build context name declared = .ok n) :
    n.name = name ∧ n.context = context ∧ n.declared = declared := by
  unfold Network.build at h
  obtain ⟨id, -, h⟩ := Checks.bind_ok h
  split at h
  · cases h
    exact ⟨rfl, rfl, rfl⟩
  · cases h

theorem buildGroups_ok {π : Type} {read : String → Except TopologyError π} {context : String}
    {declared : OrderedMap GroupDeclaration} {gs : List (Group π)}
    (h : buildGroups read context declared = .ok gs) :
    gs.map Group.name = declared.keys ∧ ∀ g ∈ gs, g.context = context ∧ g.members = ∅ := by
  have hall : List.Forall₂ (fun e g => g.name = e.1 ∧ g.context = context ∧ g.members = ∅)
      declared.entries gs := by
    refine List.Forall₂.imp (fun e g hg => ?_) (Checks.mapM_ok h)
    obtain ⟨policy, -, hg⟩ := Checks.bind_ok hg
    cases hg
    exact ⟨rfl, rfl, rfl⟩
  refine ⟨(Checks.map_eq_of_forall₂ hall fun e g hg => hg.1.symm).symm, fun g hg => ?_⟩
  obtain ⟨e, -, he⟩ := Checks.exists_of_forall₂ hall hg
  exact he.2

namespace Topology

/-- What the servers of a topology take over from it. -/
def serverDefaults (t : Topology) : ServerDefaults :=
  ⟨t.name, t.declared.image, t.declared.flavor, t.declared.user⟩

/-- A topology whose servers are those of the entries, every one of them built and entered into its
groups. -/
structure Holds (t : Topology) (entries : List (String × ServerDeclaration)) : Prop where
  named : t.name ≠ ""
  networks : List.Forall₂ (fun e n => Network.build t.name e.1 e.2 = .ok n)
    t.declared.networks.entries t.networks
  placementGroupNames : t.placementGroups.map Group.name = t.declared.placementGroups.keys
  placementGroupContext : ∀ g ∈ t.placementGroups, g.context = t.name
  serverGroupNames : t.serverGroups.map Group.name = t.declared.serverGroups.keys
  serverGroupContext : ∀ g ∈ t.serverGroups, g.context = t.name
  groupsApart : ∀ g ∈ t.serverGroups, g.resourceName ∉ t.networks.flatMap Network.resourceNames
  servers : List.Forall₂ (fun e s => Server.build t.serverDefaults t.networks e.1 e.2 = .ok s)
    entries t.servers
  placementKnown : ∀ s ∈ t.servers, s.placementGroups ⊆ t.placementGroups.map Group.name
  serverGroupKnown : ∀ s ∈ t.servers, s.serverGroup.toList ⊆ t.serverGroups.map Group.name
  placementMembers : ∀ g ∈ t.placementGroups, ∀ x, g.hasMember x = true ↔
    ∃ s ∈ t.servers, g.name ∈ s.placementGroups ∧ s.resourceName = x
  serverGroupMembers : ∀ g ∈ t.serverGroups, ∀ x, g.hasMember x = true ↔
    ∃ s ∈ t.servers, s.serverGroup = some g.name ∧ s.resourceName = x

/-- A topology all of whose declared servers are in place. -/
abbrev WellFormed (t : Topology) : Prop := t.Holds t.declared.servers.entries

theorem addServer_ok {t t' : Topology} {name : String} {declared : ServerDeclaration}
    (h : t.addServer name declared = .ok t') :
    ∃ s pgs sgs, Server.build t.serverDefaults t.networks name declared = .ok s ∧
      joinPlacement s t.placementGroups = .ok pgs ∧ joinServerGroup s t.serverGroups = .ok sgs ∧
      t' = { t with placementGroups := pgs, serverGroups := sgs, servers := t.servers ++ [s] } := by
  unfold addServer at h
  obtain ⟨s, hs, h⟩ := Checks.bind_ok h
  obtain ⟨pgs, hp, h⟩ := Checks.bind_ok h
  obtain ⟨sgs, hg, h⟩ := Checks.bind_ok h
  exact ⟨s, pgs, sgs, hs, hp, hg, (Except.ok.inj h).symm⟩

theorem checkGroupNames_ok {groups : List ServerGroup} {networks : List Network}
    (h : checkGroupNames groups networks = .ok ()) :
    ∀ g ∈ groups, g.resourceName ∉ networks.flatMap Network.resourceNames := by
  simp only [checkGroupNames] at h
  split at h
  · cases h
  · next hnone =>
    intro g hg
    simpa using List.find?_eq_none.mp hnone g hg

theorem context_enroll {π : Type} {gs : List (Group π)} {context member : String}
    {names : List String} (h : ∀ g ∈ gs, g.context = context) :
    ∀ g ∈ gs.map (Group.enroll names member), g.context = context := by
  simpa using h

/-- The new members of a group after one more server came. -/
theorem members_enroll {π : Type} {gs : List (Group π)} {servers : List Server} {s : Server}
    {named : Server → Group π → Prop} {names : List String}
    (hnamed : ∀ g, named s g ↔ g.name ∈ names)
    (hold : ∀ g g' : Group π, g.name = g'.name → ∀ s', named s' g ↔ named s' g')
    (h : ∀ g ∈ gs, ∀ x, g.hasMember x = true ↔ ∃ s ∈ servers, named s g ∧ s.resourceName = x) :
    ∀ g ∈ gs.map (Group.enroll names s.resourceName), ∀ x, g.hasMember x = true ↔
      ∃ s' ∈ servers ++ [s], named s' g ∧ s'.resourceName = x := by
  intro g hg x
  obtain ⟨g, hm, rfl⟩ := List.mem_map.mp hg
  rw [Group.hasMember_enroll, h g hm]
  have hsame := hold (g.enroll names s.resourceName) g (by simp)
  constructor
  · rintro (⟨hn, rfl⟩ | ⟨s', hs', hn, hx⟩)
    · exact ⟨s, by simp, (hsame s).mpr ((hnamed g).mpr hn), rfl⟩
    · exact ⟨s', List.mem_append_left _ hs', (hsame s').mpr hn, hx⟩
  · rintro ⟨s', hs', hn, hx⟩
    rcases List.mem_append.mp hs' with hs' | hs'
    · exact Or.inr ⟨s', hs', (hsame s').mp hn, hx⟩
    · obtain rfl := List.mem_singleton.mp hs'
      exact Or.inl ⟨(hnamed g).mp ((hsame s').mp hn), hx.symm⟩

/-- One more server keeps all that held before. -/
theorem Holds.addServer {t t' : Topology} {entries : List (String × ServerDeclaration)}
    {e : String × ServerDeclaration} (ht : t.Holds entries) (h : t.addServer e.1 e.2 = .ok t') :
    t'.declared = t.declared ∧ t'.Holds (entries ++ [e]) := by
  obtain ⟨s, pgs, sgs, hs, hp, hg, rfl⟩ := addServer_ok h
  have hpn : (t.placementGroups.map Group.name).Nodup :=
    ht.placementGroupNames ▸ t.declared.placementGroups.nodup
  have hgn : (t.serverGroups.map Group.name).Nodup :=
    ht.serverGroupNames ▸ t.declared.serverGroups.nodup
  obtain ⟨hpk, rfl⟩ := joinPlacement_ok hpn hp
  obtain ⟨hgk, rfl⟩ := joinServerGroup_ok hgn hg
  refine ⟨rfl, ht.named, ht.networks, ?_, ?_, ?_, ?_, ?_, ?_, ?_, ?_, ?_, ?_⟩
  · simpa only [map_name_enroll] using ht.placementGroupNames
  · exact fun g hg => context_enroll ht.placementGroupContext g hg
  · simpa only [map_name_enroll] using ht.serverGroupNames
  · exact fun g hg => context_enroll ht.serverGroupContext g hg
  · simpa using ht.groupsApart
  · exact List.rel_append ht.servers (.cons hs .nil)
  · intro s' hs'
    simp only [map_name_enroll]
    rcases List.mem_append.mp hs' with hs' | hs'
    · exact ht.placementKnown s' hs'
    · exact List.mem_singleton.mp hs' ▸ hpk
  · intro s' hs'
    simp only [map_name_enroll]
    rcases List.mem_append.mp hs' with hs' | hs'
    · exact ht.serverGroupKnown s' hs'
    · exact List.mem_singleton.mp hs' ▸ hgk
  · exact members_enroll (fun g => Iff.rfl) (fun g g' hgg s' => by rw [hgg]) ht.placementMembers
  · exact members_enroll (fun g => by simp [eq_comm]) (fun g g' hgg s' => by rw [hgg])
      ht.serverGroupMembers

/-- A topology without servers, its groups and networks in place. -/
theorem holds_start {declared : ContextDeclaration} {placementGroups : List PlacementGroup}
    {serverGroups : List ServerGroup} {networks : List Network} (hname : declared.name ≠ "")
    (hp : buildGroups PlacementPolicy.read declared.name declared.placementGroups = .ok placementGroups)
    (hg : buildGroups ServerGroupPolicy.read declared.name declared.serverGroups = .ok serverGroups)
    (hn : declared.networks.entries.mapM (fun e => Network.build declared.name e.1 e.2) = .ok networks)
    (ha : checkGroupNames serverGroups networks = .ok ()) :
    Holds { declared, networks, placementGroups, serverGroups, servers := [] } [] := by
  obtain ⟨hpn, hpc⟩ := buildGroups_ok hp
  obtain ⟨hgn, hgc⟩ := buildGroups_ok hg
  refine ⟨hname, Checks.mapM_ok hn, hpn, fun g hg => (hpc g hg).1, hgn,
    fun g hg => (hgc g hg).1, checkGroupNames_ok ha, .nil, ?_, ?_, ?_, ?_⟩
  · simp
  · simp
  · intro g hg x
    simp [Group.hasMember, (hpc g hg).2, SortedMap.contains]
  · intro g hg x
    simp [Group.hasMember, (hgc g hg).2, SortedMap.contains]

/-- A topology that was built: its groups and networks were, and the servers were added to them. -/
theorem build_ok {declared : ContextDeclaration} {t : Topology} (h : Topology.build declared = .ok t) :
    declared.name ≠ "" ∧ ∃ placementGroups serverGroups networks,
      buildGroups PlacementPolicy.read declared.name declared.placementGroups = .ok placementGroups ∧
      buildGroups ServerGroupPolicy.read declared.name declared.serverGroups = .ok serverGroups ∧
      declared.networks.entries.mapM (fun e => Network.build declared.name e.1 e.2) = .ok networks ∧
      checkGroupNames serverGroups networks = .ok () ∧
      declared.servers.entries.foldlM (fun (t : Topology) e => t.addServer e.1 e.2)
        { declared, networks, placementGroups, serverGroups, servers := [] } = .ok t := by
  dsimp only [Topology.build] at h
  by_cases hname : declared.name = ""
  · rw [if_pos hname] at h
    cases h
  · rw [if_neg hname] at h
    obtain ⟨pgs, hp, h⟩ := Checks.bind_ok h
    obtain ⟨sgs, hg, h⟩ := Checks.bind_ok h
    obtain ⟨ns, hn, h⟩ := Checks.bind_ok h
    obtain ⟨⟨⟩, ha, h⟩ := Checks.bind_ok h
    exact ⟨hname, pgs, sgs, ns, hp, hg, hn, ha, h⟩

/-- A topology that was built is that of its declaration and holds all of the declared servers. -/
theorem wellFormed_of_build {declared : ContextDeclaration} {t : Topology}
    (h : Topology.build declared = .ok t) : t.declared = declared ∧ t.WellFormed := by
  obtain ⟨hname, pgs, sgs, ns, hp, hg, hn, ha, h⟩ := build_ok h
  have hend : t.declared = declared ∧ t.Holds declared.servers.entries := by
    refine Checks.foldlM_ok (fun done (t : Topology) => t.declared = declared ∧ t.Holds done)
      ⟨rfl, holds_start hname hp hg hn ha⟩ ?_ h
    rintro done e t t' ⟨rfl, ht⟩ hstep
    exact ht.addServer hstep
  obtain ⟨rfl, hend⟩ := hend
  exact ⟨rfl, hend⟩

/-! What the parts of a well-formed topology are to each other. -/

/-- A name that one of the elements has is found. -/
theorem find?_of_name {α : Type} {f : α → String} {xs : List α} {name : String}
    (h : name ∈ xs.map f) : ∃ x ∈ xs, xs.find? (fun x => f x == name) = some x ∧ f x = name := by
  obtain ⟨y, hy, hname⟩ := List.mem_map.mp h
  have hsome : (xs.find? fun x => f x == name).isSome = true :=
    List.find?_isSome.mpr ⟨y, hy, by simp [hname]⟩
  obtain ⟨x, hx⟩ := Option.isSome_iff_exists.mp hsome
  exact ⟨x, List.mem_of_find?_eq_some hx, hx, by simpa using List.find?_some hx⟩

namespace Holds
variable {t : Topology} {entries : List (String × ServerDeclaration)} {s : Server}

theorem networkNames (h : t.Holds entries) :
    t.networks.map Network.name = t.declared.networks.keys :=
  (Checks.map_eq_of_forall₂ h.networks fun _ _ hn => (Network.build_ok hn).1.symm).symm

theorem networkNames_nodup (h : t.Holds entries) : (t.networks.map Network.name).Nodup :=
  h.networkNames ▸ t.declared.networks.nodup

theorem network_context (h : t.Holds entries) {n : Network} (hn : n ∈ t.networks) :
    n.context = t.name := by
  obtain ⟨e, -, he⟩ := Checks.exists_of_forall₂ h.networks hn
  exact (Network.build_ok he).2.1

theorem serverNames (h : t.Holds entries) : t.servers.map Server.name = entries.map Prod.fst :=
  (Checks.map_eq_of_forall₂ h.servers fun _ _ hs => (Server.build_ok hs).1.symm).symm

theorem server_context (h : t.Holds entries) (hs : s ∈ t.servers) : s.context = t.name := by
  obtain ⟨e, -, he⟩ := Checks.exists_of_forall₂ h.servers hs
  exact (Server.build_ok he).2.1

theorem instances_pos (h : t.Holds entries) (hs : s ∈ t.servers) : 0 < s.instances := by
  obtain ⟨e, -, he⟩ := Checks.exists_of_forall₂ h.servers hs
  obtain ⟨-, -, hd, hi, -, -⟩ := Server.build_ok he
  rw [Server.instances, hd]
  exact Nat.pos_of_ne_zero fun h0 => hi (UInt32.toNat_inj.mp h0)

theorem networks_known (h : t.Holds entries) (hs : s ∈ t.servers) :
    s.networks ⊆ t.networks.map Network.name := by
  obtain ⟨e, -, he⟩ := Checks.exists_of_forall₂ h.servers hs
  obtain ⟨-, -, -, -, ha, -⟩ := Server.build_ok he
  exact (attachedNames_ok ha).2

/-- No network that a server names is passed over. -/
theorem attached_names (h : t.Holds entries) (hs : s ∈ t.servers) :
    (s.attached t.networks).map Network.name = s.networks := by
  have hall : ∀ names ⊆ t.networks.map Network.name,
      (names.filterMap fun name => t.networks.find? fun n => n.name == name).map Network.name =
        names := by
    intro names hsub
    induction names with
    | nil => rfl
    | cons name rest ih =>
      obtain ⟨hname, hrest⟩ := List.cons_subset.mp hsub
      obtain ⟨n, -, hn, rfl⟩ := find?_of_name hname
      simp only [List.filterMap_cons, hn, List.map_cons, ih hrest]
  exact hall s.networks (h.networks_known hs)

/-- A server has a floating address exactly if it asks for one. -/
theorem floatingIp_isSome_iff (h : t.Holds entries) (hs : s ∈ t.servers) :
    s.floatingIp.isSome = true ↔ s.declared.floatingIp = true := by
  obtain ⟨e, -, he⟩ := Checks.exists_of_forall₂ h.servers hs
  obtain ⟨-, -, hd, -, -, hf⟩ := Server.build_ok he
  rw [← hd, floatingIpOf] at hf
  split at hf
  · next hwanted =>
    obtain ⟨f, -, hf⟩ := Checks.map_ok hf
    simp [← hf, hwanted]
  · next hwanted =>
    cases hnone : s.floatingIp with
    | none => simp [hwanted]
    | some f =>
      rw [hnone] at hf
      cases hf

/-- The floating address goes through a network that the server is attached to. -/
theorem floatingIp_network (h : t.Holds entries) (hs : s ∈ t.servers) {f : FloatingIp}
    (hf : s.floatingIp = some f) : f.network ∈ s.networks := by
  obtain ⟨e, -, he⟩ := Checks.exists_of_forall₂ h.servers hs
  obtain ⟨-, -, -, -, -, hfloating⟩ := Server.build_ok he
  rw [hf, floatingIpOf] at hfloating
  split at hfloating
  · obtain ⟨f', hfor, hf'⟩ := Checks.map_ok hfloating
    obtain rfl := Option.some.inj hf'
    exact floatingIpFor_network hfor
  · cases hfloating

theorem mem_networks_of_attached {n : Network} (hn : n ∈ s.attached t.networks) :
    n ∈ t.networks := by
  obtain ⟨name, -, hfound⟩ := List.mem_filterMap.mp hn
  exact List.mem_of_find?_eq_some hfound

theorem placementGroup_known (h : t.Holds entries) (hs : s ∈ t.servers) {name : String}
    (hn : name ∈ s.placementGroups) :
    ∃ g ∈ t.placementGroups, t.placementGroup? name = some g ∧ g.name = name :=
  find?_of_name (h.placementKnown s hs hn)

theorem serverGroup_known (h : t.Holds entries) (hs : s ∈ t.servers) {name : String}
    (hn : s.serverGroup = some name) :
    ∃ g ∈ t.serverGroups, t.serverGroup? name = some g ∧ g.name = name :=
  find?_of_name (h.serverGroupKnown s hs (by simp [hn]))

/-- Two servers of one topology with one resource name are the same server. -/
theorem eq_of_resourceName (h : t.WellFormed) {s s' : Server} (hs : s ∈ t.servers)
    (hs' : s' ∈ t.servers) (he : s.resourceName = s'.resourceName) : s = s' := by
  have hn : (t.servers.map Server.name).Nodup := h.serverNames ▸ t.declared.servers.nodup
  refine List.inj_on_of_nodup_map hn hs hs' ?_
  rw [Server.resourceName, Server.resourceName, Server.dn, Server.dn, h.server_context hs,
    h.server_context hs'] at he
  exact (String.append_left_inj _).mp ((String.append_left_inj _).mp he)

end Holds
end Topology
end Provision
