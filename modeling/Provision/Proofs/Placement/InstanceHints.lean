import Provision.Proofs.Layout.Compilation

/-! The hints of the instances in a compiled graph, told from the declared groups: every instance names
the servers that share a group with its server and were placed before it, and nothing that comes later. -/
namespace Provision

/-- The servers placed before that share a group of the policy with the server, group after group in
the order in which the server names its groups. -/
def Topology.sharing (t : Topology) (policy : PlacementPolicy) (before : List Server) (s : Server) :
    List String :=
  (s.placementGroups.filter fun name => (t.placementGroup? name).any fun g => g.policy = policy).flatMap
    fun name => (before.filter fun u => name ∈ u.placementGroups).map Server.resourceName

/-- The resource of the server group that the server declares. -/
def Server.groupName? (s : Server) : Option String :=
  s.serverGroup.map fun name => s.context ++ "-" ++ name

/-- What a resource tells the scheduler under a key. -/
def Resource.hint? (r : Resource) (key : String) : Option Json :=
  (r.properties.member? "scheduler_hints").bind (Json.member? key)

/-- A list of references, left out if it is empty. -/
def references? (names : List String) : Option Json :=
  if names = [] then none else some (.arr (names.map resourceRef))

/-- The resource asks to be near some servers, apart from others and in a group, and has no hints if
there is nothing to ask for. -/
structure Resource.Asks (r : Resource) (near apart : List String) (group : Option String) : Prop where
  sameHost : r.hint? "same_host" = references? near
  differentHost : r.hint? "different_host" = references? apart
  joins : r.hint? "group" = group.map resourceRef
  absent : r.properties.member? "scheduler_hints" = none ↔ near = [] ∧ apart = [] ∧ group = none

namespace Hints

theorem member?_sameHost (h : Hints) : h.toJson.member? "same_host" = references? h.near := by
  by_cases hn : h.near = [] <;> by_cases ha : h.apart = [] <;> cases hg : h.group <;>
    simp [toJson, Json.member?, references?, hn, ha, hg]

theorem member?_differentHost (h : Hints) :
    h.toJson.member? "different_host" = references? h.apart := by
  by_cases hn : h.near = [] <;> by_cases ha : h.apart = [] <;> cases hg : h.group <;>
    simp [toJson, Json.member?, references?, hn, ha, hg]

theorem member?_group (h : Hints) : h.toJson.member? "group" = h.group.map resourceRef := by
  by_cases hn : h.near = [] <;> by_cases ha : h.apart = [] <;> cases hg : h.group <;>
    simp [toJson, Json.member?, hn, ha, hg]

end Hints

namespace Server

theorem member?_hints (s : Server) (networks : List Network) (hints : Hints) (inst : String) :
    (s.instanceResource networks hints inst).properties.member? "scheduler_hints" =
      if hints.isEmpty then none else some hints.toJson := by
  have hname : ∀ key value, key ≠ "scheduler_hints" →
      (nameProperty key value).find? (fun m => m.1 == "scheduler_hints") = none := by
    intro key value hk
    cases value <;> simp [nameProperty, hk]
  have hflavor : s.flavorProperty.find? (fun m => m.1 == "scheduler_hints") = none := by
    rcases hf : s.flavor with _ | name | f <;> simp [flavorProperty, hf]
  cases he : hints.isEmpty <;>
    simp [instanceResource, Json.member?, List.find?_append, hname, hflavor, he]

/-- An instance asks for what its hints say. -/
theorem asks_instanceResource (s : Server) (networks : List Network) (hints : Hints) (inst : String) :
    (s.instanceResource networks hints inst).Asks hints.near hints.apart hints.group := by
  have hm := s.member?_hints networks hints inst
  by_cases he : hints.isEmpty = true
  · obtain ⟨hn, ha, hg⟩ := hints.isEmpty_iff.mp he
    rw [if_pos he] at hm
    constructor <;> simp [Resource.hint?, hm, hn, ha, hg, references?]
  · rw [if_neg he] at hm
    refine ⟨?_, ?_, ?_, ?_⟩
    · rw [Resource.hint?, hm, Option.bind_some, hints.member?_sameHost]
    · rw [Resource.hint?, hm, Option.bind_some, hints.member?_differentHost]
    · rw [Resource.hint?, hm, Option.bind_some, hints.member?_group]
    · rw [hm, ← hints.isEmpty_iff]
      simp [he]

end Server

namespace Topology
variable {t : Topology} {before after : List Server} {s : Server}

theorem Holds.resourceNames_nodup (h : t.WellFormed) :
    (t.servers.map Server.resourceName).Nodup := by
  have hn : (t.servers.map Server.name).Nodup := h.serverNames ▸ t.declared.servers.nodup
  exact (List.Nodup.of_map _ hn).map_on fun _ hs _ hs' he => Holds.eq_of_resourceName h hs hs' he

/-- Membership in a group is what the servers declare. -/
theorem peers_eq_sharing (h : t.WellFormed) (hb : before ⊆ t.servers) (hs : s ∈ t.servers)
    (policy : PlacementPolicy) :
    t.peers policy (before.map Server.resourceName) s = t.sharing policy before s := by
  have hmember : ∀ g ∈ t.placementGroups, ∀ u ∈ before,
      g.hasMember u.resourceName = decide (g.name ∈ u.placementGroups) := by
    intro g hg u hu
    rw [Bool.eq_iff_iff, h.placementMembers g hg, decide_eq_true_iff]
    constructor
    · rintro ⟨u', hu', hname, he⟩
      exact Holds.eq_of_resourceName h hu' (hb hu) he ▸ hname
    · exact fun hname => ⟨u, hb hu, hname, rfl⟩
  have hall : ∀ names ⊆ t.placementGroups.map Group.name,
      (((names.filterMap t.placementGroup?).filter fun g => g.policy = policy).flatMap
        fun g => (before.map Server.resourceName).filter g.hasMember) =
      (names.filter fun name => (t.placementGroup? name).any fun g => g.policy = policy).flatMap
        fun name => (before.filter fun u => name ∈ u.placementGroups).map Server.resourceName := by
    intro names hsub
    induction names with
    | nil => rfl
    | cons name rest ih =>
      obtain ⟨hname, hrest⟩ := List.cons_subset.mp hsub
      obtain ⟨g, hg, hfound, rfl⟩ := find?_of_name hname
      have hfound : t.placementGroup? g.name = some g := hfound
      have hplaced : (before.map Server.resourceName).filter g.hasMember =
          (before.filter fun u => g.name ∈ u.placementGroups).map Server.resourceName := by
        rw [List.filter_map]
        exact congrArg _ (List.filter_congr fun u hu => hmember g hg u hu)
      by_cases hp : g.policy = policy
      · simp [hfound, hp, hplaced, ih hrest]
      · simp [hfound, hp, ih hrest]
  exact hall s.placementGroups (h.placementKnown s hs)

theorem groupResource_eq (h : t.WellFormed) (hs : s ∈ t.servers) :
    t.groupResource s = s.groupName? := by
  cases hg : s.serverGroup with
  | none => simp [groupResource, Server.groupName?, hg]
  | some name =>
    obtain ⟨g, hm, hfound, rfl⟩ := h.serverGroup_known hs hg
    simp [groupResource, Server.groupName?, hg, hfound, Group.resourceName,
      h.serverGroupContext g hm, h.server_context hs]

theorem mem_sharing {policy : PlacementPolicy} {name : String} :
    name ∈ t.sharing policy before s ↔ ∃ group ∈ s.placementGroups,
      ((t.placementGroup? group).any fun g => g.policy = policy) = true ∧
      ∃ u ∈ before, group ∈ u.placementGroups ∧ u.resourceName = name := by
  simp [sharing, and_assoc]

/-- A layout declares every instance, with hints that look at the servers placed before. -/
theorem instance_mem_resources (ho : t.placementOrder = before ++ s :: after) {i : Nat}
    (hi : i < s.instances) :
    s.instanceResource (s.attached t.networks)
      (Hints.forServer t (before.map Server.resourceName) s) (s.instanceName i) ∈
      resourcesOf t.steps := by
  have hmem : s.instanceResource (s.attached t.networks)
      (Hints.forServer t (before.map Server.resourceName) s) (s.instanceName i) ∈
      resourcesOf (s.instanceSteps (s.attached t.networks)
        (Hints.forServer t (before.map Server.resourceName) s) i) := by
    rw [Server.resourcesOf_instanceSteps]
    simp
  rw [steps_eq, resourcesOf_append]
  refine List.mem_append_right _ (mem_serverSteps.mpr ⟨before, s, after, ho, ?_⟩)
  rw [List.nil_append, Server.resourcesOf_steps]
  exact List.mem_append_right _ (List.mem_flatMap.mpr ⟨i, List.mem_range.mpr hi, hmem⟩)

/-- The hints of a server, told from what is declared. -/
theorem forServer_eq (h : t.WellFormed) (ho : t.placementOrder = before ++ s :: after) :
    (Hints.forServer t (before.map Server.resourceName) s).near = t.sharing .affinity before s ∧
    (Hints.forServer t (before.map Server.resourceName) s).apart = t.sharing .availability before s ∧
    (Hints.forServer t (before.map Server.resourceName) s).group = s.groupName? := by
  have hplaced : before ++ s :: after ⊆ t.servers := fun u hu => mem_placementOrder.mp (ho ▸ hu)
  obtain ⟨hb, hrest⟩ := List.append_subset.mp hplaced
  have hs := hrest List.mem_cons_self
  refine ⟨?_, ?_, ?_⟩
  · rw [Hints.near_forServer, peers_eq_sharing h hb hs]
  · rw [Hints.apart_forServer, peers_eq_sharing h hb hs]
  · rw [Hints.group_forServer, groupResource_eq h hs]

/-- Of two servers that share a group the later one names the earlier one. -/
theorem names_earlier (h : t.WellFormed) (hs : s ∈ t.servers) {u : Server} (hu : u ∈ before)
    {name : String} (hname : name ∈ s.placementGroups) (hshared : name ∈ u.placementGroups) :
    ∃ pg, t.placementGroup? name = some pg ∧ u.resourceName ∈ t.sharing pg.policy before s := by
  obtain ⟨pg, -, hpg, -⟩ := h.placementGroup_known hs hname
  refine ⟨pg, hpg, mem_sharing.mpr ⟨name, hname, ?_, u, hu, hshared, rfl⟩⟩
  simp [hpg]

/-- In a graph no server group bears the name of a server. -/
theorem groupName_ne_server (h : t.WellFormed) (hn : (t.plan.map Prod.fst).Nodup) {u : Server}
    (hu : u ∈ t.servers) (hs : s ∈ t.servers) : s.resourceName ∉ u.groupName?.toList := by
  intro hm
  rw [← groupResource_eq h hu] at hm
  have hbase : s.resourceName ∈ t.basePlan.map Prod.fst := by
    have hgroup := groupResource_mem h hu hm
    simp only [basePlan, List.map_append, List.map_map]
    exact List.mem_append_left _ (List.mem_append_right _ hgroup)
  have hplan : s.resourceName ∈ (t.placementOrder.flatMap Server.plan).map Prod.fst := by
    rw [List.map_flatMap]
    exact List.mem_flatMap.mpr ⟨s, mem_placementOrder.mpr hs,
      Server.resourceName_mem_plan (h.instances_pos hs)⟩
  rw [plan, List.map_append] at hn
  exact (List.nodup_append.mp hn).2.2 _ hbase _ hplan rfl

/-- No server names one that is placed later. -/
theorem ignores_later (h : t.WellFormed) (hn : (t.plan.map Prod.fst).Nodup)
    {first second : List Server} {u : Server}
    (ho : t.placementOrder = first ++ u :: (second ++ s :: after)) :
    s.resourceName ∉ t.sharing .affinity first u ++ t.sharing .availability first u ++
      u.groupName?.toList := by
  have hplaced : first ++ u :: (second ++ s :: after) ⊆ t.servers := fun u hu =>
    mem_placementOrder.mp (ho ▸ hu)
  have hu : u ∈ t.servers := hplaced (by simp)
  have hs : s ∈ t.servers := hplaced (by simp)
  have hnames : (t.placementOrder.map Server.resourceName).Nodup :=
    (t.placementOrder_perm.map _).nodup_iff.mpr (Holds.resourceNames_nodup h)
  have hfirst : s.resourceName ∉ first.map Server.resourceName := by
    rw [ho, List.map_append] at hnames
    exact fun hm => (List.nodup_append.mp hnames).2.2 _ hm _ (by simp) rfl
  have hsharing : ∀ policy, s.resourceName ∉ t.sharing policy first u := by
    intro policy hm
    obtain ⟨-, -, -, v, hv, -, hname⟩ := mem_sharing.mp hm
    exact hfirst (List.mem_map.mpr ⟨v, hv, hname⟩)
  simp [hsharing, groupName_ne_server h hn hu hs]

end Topology

namespace Context
variable {c : Context} {g : Graph}

/-- Every instance of a compiled context asks to be near and apart from those servers, of all that were
placed before its own, that share a placement group with it, and to be in the server group it declares.
All it names stands before it and is a dependency of it. So of two servers that share a group the later
one names the earlier one, and the earlier one does not name the later one. -/
theorem compile_hints {declared : ContextDeclaration} (h : Context.build declared = .ok c)
    (hg : c.compile.1 = .ok g) :
    c.topology.placementOrder.Perm c.topology.servers ∧
    ∀ before s after, c.topology.placementOrder = before ++ s :: after →
      (∀ i < s.instances, ∃ earlier r later, g.resources = earlier ++ r :: later ∧
        r.name = s.instanceName i ∧ r.kind = .server ∧
        r.Asks (c.topology.sharing .affinity before s) (c.topology.sharing .availability before s)
          s.groupName? ∧
        ∀ d ∈ c.topology.sharing .affinity before s ++ c.topology.sharing .availability before s ++
          s.groupName?.toList, d ∈ r.dependsOn ∧ d ∈ earlier.map Resource.name) ∧
      ∀ first u second, before = first ++ u :: second →
        (∀ name ∈ s.placementGroups, name ∈ u.placementGroups →
          ∃ pg, c.topology.placementGroup? name = some pg ∧
            u.resourceName ∈ c.topology.sharing pg.policy before s) ∧
        s.resourceName ∉ c.topology.sharing .affinity first u ++
          c.topology.sharing .availability first u ++ u.groupName?.toList := by
  have hw := (build_ok h).2
  refine ⟨c.topology.placementOrder_perm, fun before s after ho => ⟨fun i hi => ?_, ?_⟩⟩
  · obtain ⟨hnear, hapart, hgroup⟩ := Topology.forServer_eq hw ho
    obtain ⟨earlier, later, hsplit⟩ := List.append_of_mem (Topology.instance_mem_resources ho hi)
    have hgrounded := hsplit ▸ Topology.grounded_steps hw
    refine ⟨earlier, _, later, (resources_of_compile hg).trans hsplit, rfl, rfl, ?_, fun d hd => ?_⟩
    · rw [← hnear, ← hapart, ← hgroup]
      exact s.asks_instanceResource _ _ _
    · rw [← hnear, ← hapart, ← hgroup] at hd
      have hdep : d ∈ (s.instanceResource (s.attached c.topology.networks) _
          (s.instanceName i)).dependsOn := Server.mem_instanceDependencies.mpr (Or.inr hd)
      exact ⟨hdep, hgrounded.dependsOn_subset hdep⟩
  · rintro first u second rfl
    have hs : s ∈ c.topology.servers := Topology.mem_placementOrder.mp (by simp [ho])
    have ho : c.topology.placementOrder = first ++ u :: (second ++ s :: after) := by simp [ho]
    refine ⟨fun name hname hshared => ?_, Topology.ignores_later hw (nodup_of_compile hw hg) ho⟩
    exact Topology.names_earlier hw hs (by simp) hname hshared

theorem compile_hints_sample : ∃ c g, Context.build sampleDeclaration = .ok c ∧
    c.compile.1 = .ok g ∧
    c.topology.placementOrder.Perm c.topology.servers ∧
    ∀ before s after, c.topology.placementOrder = before ++ s :: after →
      (∀ i < s.instances, ∃ earlier r later, g.resources = earlier ++ r :: later ∧
        r.name = s.instanceName i ∧ r.kind = .server ∧
        r.Asks (c.topology.sharing .affinity before s) (c.topology.sharing .availability before s)
          s.groupName? ∧
        ∀ d ∈ c.topology.sharing .affinity before s ++ c.topology.sharing .availability before s ++
          s.groupName?.toList, d ∈ r.dependsOn ∧ d ∈ earlier.map Resource.name) ∧
      ∀ first u second, before = first ++ u :: second →
        (∀ name ∈ s.placementGroups, name ∈ u.placementGroups →
          ∃ pg, c.topology.placementGroup? name = some pg ∧
            u.resourceName ∈ c.topology.sharing pg.policy before s) ∧
        s.resourceName ∉ c.topology.sharing .affinity first u ++
          c.topology.sharing .availability first u ++ u.groupName?.toList := by
  obtain ⟨c, hc⟩ := Checks.exists_ok
    (by decide +kernel : (Context.build sampleDeclaration).toOption.isSome = true)
  have hcompiles : (Context.build sampleDeclaration).toOption.all
      (fun c => c.compile.1.toOption.isSome) = true := by decide +kernel
  rw [hc] at hcompiles
  obtain ⟨g, hg⟩ := Checks.exists_ok hcompiles
  exact ⟨c, g, hc, hg, compile_hints hc hg⟩

end Context
end Provision
