import Provision.Proofs.Placement.StableOrder

/-! A server that joins no group and is declared in addition to others. It stands in no group, so no hint
names it, and as it takes nothing from the place of anybody else in the order of placement, the resources
of the others are laid out as if it were not there. -/
namespace Provision

/-- Where no name is taken twice, what does not go by a name of one part of the list is the rest of it. -/
theorem filter_names_not_mem {α : Type} {f : α → String} {before own after : List α}
    (h : ((before ++ own ++ after).map f).Nodup) :
    ((before ++ own ++ after).filter fun a => f a ∉ own.map f) = before ++ after := by
  rw [List.map_append, List.map_append] at h
  obtain ⟨hfirst, -, hafter⟩ := List.nodup_append'.mp h
  obtain ⟨-, -, hbefore⟩ := List.nodup_append'.mp hfirst
  have hown : (own.filter fun a => f a ∉ own.map f) = [] :=
    List.filter_eq_nil_iff.mpr fun a ha hn => of_decide_eq_true hn (List.mem_map_of_mem ha)
  have hkeep : ∀ rest : List α, (rest.map f).Disjoint (own.map f) →
      (rest.filter fun a => f a ∉ own.map f) = rest := fun rest hrest =>
    List.filter_eq_self.mpr fun a ha => decide_eq_true fun hm => hrest (List.mem_map_of_mem ha) hm
  rw [List.filter_append, List.filter_append, hown, hkeep before hbefore,
    hkeep after fun name hname hm => hafter (List.mem_append_right _ hm) hname, List.append_nil]

namespace Topology

/-- The topology with other servers, its groups and networks as they are. -/
def withServers (t : Topology) (declared : OrderedMap ServerDeclaration) (servers : List Server) :
    Topology :=
  { t with declared := { t.declared with servers := declared }, servers }

/-- The second topology is the first one with the extra servers, somewhere in the row of the others. -/
def Inserts (extra : List Server) (t t' : Topology) : Prop :=
  ∃ declared front back, t.servers = front ++ back ∧ t' = t.withServers declared (front ++ extra ++ back)

variable {t t' u u' : Topology} {s : Server} {extra : List Server}

/-- Adding the same server to both keeps what they have in common. -/
theorem Inserts.addServer {name : String} {server : ServerDeclaration} (h : Inserts extra t t')
    (hu : t.addServer name server = .ok u) (hu' : t'.addServer name server = .ok u') :
    Inserts extra u u' := by
  obtain ⟨declared, front, back, hservers, rfl⟩ := h
  obtain ⟨s, pgs, sgs, hs, hp, hg, rfl⟩ := addServer_ok hu
  obtain ⟨s', pgs', sgs', hs', hp', hg', rfl⟩ := addServer_ok hu'
  obtain rfl : s = s' := Except.ok.inj (hs.symm.trans hs')
  obtain rfl : pgs = pgs' := Except.ok.inj (hp.symm.trans hp')
  obtain rfl : sgs = sgs' := Except.ok.inj (hg.symm.trans hg')
  exact ⟨declared, front, back ++ [s], by simp [hservers], by simp [withServers]⟩

/-- A server that names no groups is added to the second topology only. -/
theorem Inserts.newcomer {name : String} {server : ServerDeclaration} (h : Inserts [] t t')
    (hplacement : server.placement.elim [] NameList.toList = []) (hgroup : server.serverGroup = none)
    (hu : t'.addServer name server = .ok u') :
    ∃ s, s.name = name ∧ s.declared = server ∧ s.placementGroups = [] ∧ Inserts [s] t u' := by
  obtain ⟨declared, front, back, hservers, rfl⟩ := h
  obtain ⟨s, pgs, sgs, hs, hp, hg, rfl⟩ := addServer_ok hu
  obtain ⟨hname, -, hdeclared, -⟩ := Server.build_ok hs
  have hnone : s.placementGroups = [] := by
    rw [Server.placementGroups, hdeclared]
    cases hd : server.placement <;> simp_all
  rw [joinPlacement, hnone] at hp
  rw [joinServerGroup, Server.serverGroup, hdeclared, hgroup] at hg
  cases hp
  cases hg
  refine ⟨s, hname, hdeclared, hnone, declared, t.servers, [], by simp, ?_⟩
  simp [withServers, hservers]

theorem inserts_of_build {declared : ContextDeclaration} {servers : OrderedMap ServerDeclaration}
    {before after : List (String × ServerDeclaration)} {name : String} {server : ServerDeclaration}
    (hentries : declared.servers.entries = before ++ after)
    (hmore : servers.entries = before ++ (name, server) :: after)
    (hplacement : server.placement.elim [] NameList.toList = []) (hgroup : server.serverGroup = none)
    (h : Topology.build declared = .ok t) (h' : Topology.build { declared with servers } = .ok t') :
    ∃ s, s.name = name ∧ s.declared = server ∧ s.placementGroups = [] ∧ Inserts [s] t t' := by
  obtain ⟨-, pgs, sgs, ns, hp, hg, hn, -, h⟩ := build_ok h
  obtain ⟨-, pgs', sgs', ns', hp', hg', hn', -, h'⟩ := build_ok h'
  obtain rfl : pgs = pgs' := Except.ok.inj (hp.symm.trans hp')
  obtain rfl : sgs = sgs' := Except.ok.inj (hg.symm.trans hg')
  obtain rfl : ns = ns' := Except.ok.inj (hn.symm.trans hn')
  rw [hentries, List.foldlM_append] at h
  rw [hmore, List.foldlM_append] at h'
  obtain ⟨u, hu, h⟩ := Checks.bind_ok h
  obtain ⟨u', hu', h'⟩ := Checks.bind_ok h'
  rw [List.foldlM_cons] at h'
  obtain ⟨v, hv, h'⟩ := Checks.bind_ok h'
  have hbefore : Inserts [] u u' := by
    refine Checks.foldlM_rel (Inserts []) ?_ ?_ hu hu'
    · exact ⟨servers, [], [], rfl, rfl⟩
    · exact fun e _ _ _ _ hi => hi.addServer
  obtain ⟨s, hname, hdeclared, hnone, hnew⟩ := hbefore.newcomer hplacement hgroup hv
  refine ⟨s, hname, hdeclared, hnone, Checks.foldlM_rel (Inserts [s]) hnew ?_ h h'⟩
  exact fun e _ _ _ _ hi => hi.addServer

theorem Inserts.mem_servers (hi : Inserts [s] t t') : s ∈ t'.servers := by
  obtain ⟨declared, front, back, -, rfl⟩ := hi
  simp [withServers]

/-! The others are placed as before. -/

/-- The order of placement with the newcomer left out is the order of the others. -/
theorem Inserts.order (hi : Inserts [s] t t') (h : t.WellFormed) (h' : t'.WellFormed) :
    ∃ before after, t'.placementOrder = before ++ s :: after ∧ t.placementOrder = before ++ after := by
  have hnodup : (t'.servers.map Server.name).Nodup := h'.serverNames ▸ t'.declared.servers.nodup
  have horder := (t'.placementOrder_perm.map Server.name).nodup_iff.mpr hnodup
  have hs := hi.mem_servers
  obtain ⟨declared, front, back, hservers, rfl⟩ := hi
  have hrow : (t.withServers declared (front ++ [s] ++ back)).servers = front ++ [s] ++ back := rfl
  -- Without the newcomer both orders arrange the same row, and there is only one way to do that.
  have harranged := (arranges_placementOrder h').filter fun u => u.name ∉ [s].map Server.name
  rw [hrow, filter_names_not_mem hnodup, ← hservers] at harranged
  have hothers := harranged.eq (arranges_placementOrder h)
  obtain ⟨before, after, hsplit⟩ := List.append_of_mem (mem_placementOrder.mpr hs)
  rw [List.append_cons before s after] at hsplit
  rw [hsplit, filter_names_not_mem (hsplit ▸ horder)] at hothers
  exact ⟨before, after, by simpa using hsplit, hothers.symm⟩

end Topology

/-- Hints depend only on those servers placed before that are members of groups. -/
theorem Hints.forServer_congr {t : Topology} {placed placed' : List String}
    (h : ∀ g ∈ t.placementGroups, placed.filter g.hasMember = placed'.filter g.hasMember) (s : Server) :
    forServer t placed s = forServer t placed' s := by
  have hassign : ∀ (hints : Hints), ∀ g ∈ s.placementGroups.filterMap t.placementGroup?,
      hints.assign placed g = hints.assign placed' g := by
    intro hints g hg
    obtain ⟨name, -, hfound⟩ := List.mem_filterMap.mp hg
    simp only [assign, h g (List.mem_of_find?_eq_some hfound)]
  simp only [forServer, List.foldl_ext _ _ _ hassign]

namespace Topology
variable {t t' : Topology} {s : Server} {placed placed' : List String} {servers : List Server}

theorem serverSteps_congr
    (h : ∀ g ∈ t.placementGroups, placed.filter g.hasMember = placed'.filter g.hasMember) :
    t.serverSteps placed servers = t.serverSteps placed' servers := by
  induction servers generalizing placed placed' with
  | nil => rfl
  | cons s rest ih =>
    have hrest : ∀ g ∈ t.placementGroups, (placed ++ [s.resourceName]).filter g.hasMember =
        (placed' ++ [s.resourceName]).filter g.hasMember := fun g hg => by
      rw [List.filter_append, List.filter_append, h g hg]
    rw [serverSteps, serverSteps, Hints.forServer_congr h, ih hrest]

/-- Steps of servers look at the groups and networks of the topology, and not at its servers. -/
theorem serverSteps_withServers (t : Topology) (declared : OrderedMap ServerDeclaration)
    (others : List Server) :
    (t.withServers declared others).serverSteps placed servers = t.serverSteps placed servers := by
  induction servers generalizing placed with
  | nil => rfl
  | cons s rest ih =>
    rw [serverSteps, serverSteps, ih]
    rfl

/-- A server that names no placement group is a member of none. -/
theorem hasMember_of_free (h : t.WellFormed) (hs : s ∈ t.servers) (hfree : s.placementGroups = [])
    {g : PlacementGroup} (hg : g ∈ t.placementGroups) : g.hasMember s.resourceName = false := by
  rw [Bool.eq_false_iff]
  intro hm
  obtain ⟨u, hu, hgroup, hname⟩ := (h.placementMembers g hg _).mp hm
  rw [Holds.eq_of_resourceName h hu hs hname, hfree] at hgroup
  cases hgroup

/-- With the newcomer there are the resources of before, and in one place among them its own. -/
theorem Inserts.resources (hi : Inserts [s] t t') (h : t.WellFormed) (h' : t'.WellFormed)
    (hfree : s.placementGroups = []) : ∃ before own after,
      resourcesOf t'.steps = before ++ own ++ after ∧ own.map Resource.entry = s.plan ∧
      resourcesOf t.steps = before ++ after := by
  obtain ⟨before, after, ho', ho⟩ := hi.order h h'
  have hs := hi.mem_servers
  have hplan := Server.entries_steps s t'.networks
    (Hints.forServer t' (before.map Server.resourceName) s) (h'.attached_names hs)
  have hsame : t'.serverSteps (before.map Server.resourceName ++ [s.resourceName]) after =
      t'.serverSteps (before.map Server.resourceName) after := serverSteps_congr fun g hg => by
    simp [hasMember_of_free h' hs hfree hg]
  obtain ⟨declared, front, back, -, rfl⟩ := hi
  have hbase : (t.withServers declared (front ++ [s] ++ back)).baseSteps = t.baseSteps := rfl
  refine ⟨resourcesOf t.baseSteps ++ resourcesOf (t.serverSteps [] before), _,
    resourcesOf (t.serverSteps (before.map Server.resourceName) after), ?_, hplan, ?_⟩
  · rw [steps_eq, ho', serverSteps_append, serverSteps, List.nil_append, hsame, hbase]
    simp [serverSteps_withServers]
  · rw [steps_eq, ho, serverSteps_append]
    simp

end Topology

namespace Context
variable {c c' : Context} {g g' : Graph}

/-- A server with a new name that joins no group, declared anywhere among the others, does not disturb them:
without its own resources the graph is the one there was, resource by resource and in the same order. -/
theorem compile_newcomer {declared : ContextDeclaration} {servers : OrderedMap ServerDeclaration}
    {before after : List (String × ServerDeclaration)} {name : String} {server : ServerDeclaration}
    (hentries : declared.servers.entries = before ++ after)
    (hmore : servers.entries = before ++ (name, server) :: after)
    (hplacement : server.placement.elim [] NameList.toList = []) (hgroup : server.serverGroup = none)
    (h : Context.build declared = .ok c) (hg : c.compile.1 = .ok g)
    (h' : Context.build { declared with servers } = .ok c') (hg' : c'.compile.1 = .ok g') :
    ∃ s ∈ c'.topology.servers, s.name = name ∧ s.declared = server ∧
      (g'.resources.filter fun r => r.name ∉ s.plan.map Prod.fst) = g.resources ∧
      ∃ earlier own later, g'.resources = earlier ++ own ++ later ∧ own.map Resource.entry = s.plan ∧
        g.resources = earlier ++ later := by
  have hw := (build_ok h).2
  have hw' := (build_ok h').2
  obtain ⟨t, ht, rfl⟩ := Checks.map_ok h
  obtain ⟨t', ht', rfl⟩ := Checks.map_ok h'
  obtain ⟨s, hname, hdeclared, hnone, hi⟩ :=
    Topology.inserts_of_build hentries hmore hplacement hgroup ht ht'
  obtain ⟨earlier, own, later, hall, hown, hrest⟩ := hi.resources hw hw' hnone
  rw [← resources_of_compile hg'] at hall
  rw [← resources_of_compile hg] at hrest
  have hnames := hall ▸ names_nodup_of_compile hw' hg'
  refine ⟨s, hi.mem_servers, hname, hdeclared, ?_, earlier, own, later, hall, hown, hrest⟩
  rw [hall, hrest, ← hown, ← map_name_eq, filter_names_not_mem hnames]

/-- A server with a volume and a floating address for each of its two instances. -/
def cacheDeclaration : ServerDeclaration where
  instances := 2
  floatingIp := true
  volume := some (.inline 1)

/-- The servers of the sample with one more between them. -/
def serversWithCache : OrderedMap ServerDeclaration :=
  .ofList (sampleDeclaration.servers.entries.take 1 ++
    ("cache", cacheDeclaration) :: sampleDeclaration.servers.entries.drop 1)

theorem compile_newcomer_sample : ∃ c c' g g', Context.build sampleDeclaration = .ok c ∧
    c.compile.1 = .ok g ∧ Context.build { sampleDeclaration with servers := serversWithCache } = .ok c' ∧
    c'.compile.1 = .ok g' ∧ ∃ s ∈ c'.topology.servers, s.name = "cache" ∧ s.declared = cacheDeclaration ∧
      (g'.resources.filter fun r => r.name ∉ s.plan.map Prod.fst) = g.resources ∧
      ∃ earlier own later, g'.resources = earlier ++ own ++ later ∧ own.map Resource.entry = s.plan ∧
        g.resources = earlier ++ later := by
  obtain ⟨c, g, hc, hg⟩ := sample_compiles
  obtain ⟨c', hc'⟩ := Checks.exists_ok (by decide +kernel :
    (Context.build { sampleDeclaration with servers := serversWithCache }).toOption.isSome = true)
  have hcompiles : (Context.build { sampleDeclaration with servers := serversWithCache }).toOption.all
      (fun c => c.compile.1.toOption.isSome) = true := by decide +kernel
  rw [hc'] at hcompiles
  obtain ⟨g', hg'⟩ := Checks.exists_ok hcompiles
  have hentries := (List.take_append_drop 1 sampleDeclaration.servers.entries).symm
  have hmore : serversWithCache.entries = sampleDeclaration.servers.entries.take 1 ++
      ("cache", cacheDeclaration) :: sampleDeclaration.servers.entries.drop 1 := by decide +kernel
  exact ⟨c, c', g, g', hc, hg, hc', hg', compile_newcomer hentries hmore rfl rfl hc hg hc' hg'⟩

end Context
end Provision
