import Mathlib.Logic.Relation
import Provision.Proofs.Layout.Dependencies
import Provision.Proofs.Layout.Outputs
import Provision.Proofs.SortedMap

/-! In a compiled graph every reference resolves: to a resource that stands before and that the edges of
dependency lead to, and in the outputs to a resource of the graph. -/
namespace Provision

open Json

/-- The second resource is one that the first lists as a dependency. -/
def Graph.DependsOn (g : Graph) (r d : Resource) : Prop := d ∈ g.resources ∧ d.name ∈ r.dependsOn

variable {g : Graph} {access : List String}

namespace Grounded
variable {resources earlier later : List Resource} {r : Resource}

/-- A dependency stands before. -/
theorem exists_earlier (hg : Grounded [] resources) (hs : resources = earlier ++ r :: later)
    {name : String} (hd : name ∈ r.dependsOn) : ∃ d ∈ earlier, d.name = name := by
  rw [hs] at hg
  exact List.mem_map.mp (hg.dependsOn_subset hd)

/-- With distinct names it is the one resource of that name that stands before. -/
theorem mem_earlier (hg : Grounded [] resources) (hn : (resources.map Resource.name).Nodup)
    (hs : resources = earlier ++ r :: later) {d : Resource} (hm : d ∈ resources)
    (hd : d.name ∈ r.dependsOn) : d ∈ earlier := by
  obtain ⟨d', hd', hname⟩ := hg.exists_earlier hs hd
  have hm' : d' ∈ resources := hs ▸ List.mem_append_left _ hd'
  exact List.inj_on_of_nodup_map hn hm' hm hname ▸ hd'

end Grounded

/-- What is covered by dependencies resolves along them, as long as access resources come first. -/
theorem Resource.Covered.resolve {r : Resource} {earlier later : List Resource}
    (hc : r.Covered access g.resources) (hg : Grounded [] g.resources)
    (hn : (g.resources.map Resource.name).Nodup) (hs : g.resources = earlier ++ r :: later)
    (haccess : r.references = [] ∨ ∀ name ∈ access, ∃ d ∈ earlier, d.name = name) :
    ∀ v ∈ r.references, ∃ d ∈ earlier, v = .str d.name ∧
      (d.name ∈ access ∨ Relation.TransGen g.DependsOn r d) := by
  have hmem : ∀ d ∈ earlier, d ∈ g.resources := fun d hd => hs ▸ List.mem_append_left _ hd
  intro v hv
  obtain ⟨name, rfl, hname | hname | ⟨d, hm, hd, hname⟩⟩ := hc.references v hv
  · rcases haccess with hnone | hfirst
    · rw [hnone] at hv
      cases hv
    · obtain ⟨d, hd, rfl⟩ := hfirst name hname
      exact ⟨d, hd, rfl, Or.inl hname⟩
  · obtain ⟨d, hd, rfl⟩ := hg.exists_earlier hs hname
    exact ⟨d, hd, rfl, Or.inr (.single ⟨hmem d hd, hname⟩)⟩
  · -- The dependency between the two stands before, and what it depends on stands before it.
    have hearlier := hg.mem_earlier hn hs hm hd
    obtain ⟨before, between, rfl⟩ := List.append_of_mem hearlier
    have hs' : g.resources = before ++ d :: (between ++ r :: later) := by simpa using hs
    obtain ⟨d', hd', rfl⟩ := hg.exists_earlier hs' hname
    have hd' : d' ∈ before ++ d :: between := List.mem_append_left _ hd'
    exact ⟨d', hd', rfl, Or.inr (.head ⟨hm, hd⟩ (.single ⟨hmem d' hd', hname⟩))⟩

namespace Topology
variable {t : Topology}

/-- The key pair and the security group refer to nothing. -/
theorem access_resources (t : Topology) : ∃ key group,
    resourcesOf (t.keypairSteps ++ t.securityGroupSteps) = [key, group] ∧
      key.name = t.keypair ∧ group.name = t.securityGroup ∧
      ∀ r ∈ [key, group], r.references = [] ∧ r.dependsOn = [] := by
  have hrule : ∀ protocol, (securityRule protocol).under "get_resource" = [] := by
    intro protocol
    unfold securityRule
    split <;> simp
  unfold keypairSteps securityGroupSteps
  split <;> simp [Resource.references, Resource.ownProperties, hrule]

/-- Whatever refers to something stands after the key pair and the security group. -/
theorem access_first {earlier later : List Resource} {r : Resource}
    (hs : resourcesOf t.steps = earlier ++ r :: later) :
    r.references = [] ∨ ∀ name ∈ [t.keypair, t.securityGroup], ∃ d ∈ earlier, d.name = name := by
  obtain ⟨key, group, haccess, hkey, hgroup, hnone⟩ := t.access_resources
  have hrest : ∃ rest, resourcesOf t.steps = key :: group :: rest := by
    simp only [steps_eq, baseSteps]
    rw [resourcesOf_append, resourcesOf_append, resourcesOf_append, haccess]
    exact ⟨_, rfl⟩
  obtain ⟨rest, hrest⟩ := hrest
  rw [hrest] at hs
  rcases earlier with _ | ⟨first, _ | ⟨second, between⟩⟩
  · obtain ⟨rfl, -⟩ := List.cons.inj hs
    exact Or.inl (hnone _ List.mem_cons_self).1
  · obtain ⟨rfl, -⟩ := List.cons.inj (List.cons.inj hs).2
    exact Or.inl (hnone _ (by simp)).1
  · obtain ⟨hfirst, htail⟩ := List.cons.inj hs
    obtain ⟨hsecond, -⟩ := List.cons.inj htail
    refine Or.inr fun name hname => ?_
    rcases List.mem_cons.mp hname with rfl | hname
    · exact ⟨first, by simp, hfirst ▸ hkey⟩
    · exact ⟨second, by simp, hsecond ▸ hgroup.trans (List.mem_singleton.mp hname).symm⟩

theorem covered_serverGroups {gs : List ServerGroup} {all : List Resource} :
    ∀ r ∈ resourcesOf (gs.map serverGroupStep), r.Covered access all := by
  intro r hr
  obtain ⟨step, hstep, hr⟩ := List.mem_filterMap.mp hr
  obtain ⟨g, -, rfl⟩ := List.mem_map.mp hstep
  obtain rfl := Option.some.inj hr
  refine .of_none List.nodup_nil ?_
  rw [Resource.references_of_ne (by simp)]
  simp

theorem network_resources_subset {n : Network} (hn : n ∈ t.networks) :
    resourcesOf n.steps ⊆ resourcesOf t.steps := by
  intro r hr
  simp only [steps, resourcesOf_append, resourcesOf_flatMap]
  exact List.mem_append_left _ (List.mem_append_right _ (List.mem_flatMap.mpr ⟨n, hn, hr⟩))

theorem subnet_mem_resources {n : Network} (hn : n ∈ t.networks) :
    n.subnet ∈ resourcesOf t.steps :=
  network_resources_subset hn (by simp [Network.steps])

/-- In a topology whose plan holds no name twice no server lists a network twice. -/
theorem networks_nodup (h : t.WellFormed) (hn : (t.plan.map Prod.fst).Nodup) {s : Server}
    (hs : s ∈ t.servers) : ((s.attached t.networks).map Network.name).Nodup := by
  rw [h.attached_names hs]
  have hports := ((plan_nodup_iff h).mp hn).ports
  exact Server.networks_nodup (h.instances_pos hs) ((List.nodup_flatMap.mp hports).1 s hs)

theorem covered (h : t.WellFormed) (hn : (t.plan.map Prod.fst).Nodup) : ∀ r ∈ resourcesOf t.steps,
    r.Covered [t.keypair, t.securityGroup] (resourcesOf t.steps) := by
  intro r hr
  obtain ⟨key, group, haccess, -, -, hnone⟩ := t.access_resources
  simp only [steps_eq, baseSteps] at hr
  rw [resourcesOf_append, resourcesOf_append, resourcesOf_append, haccess, resourcesOf_flatMap] at hr
  rcases List.mem_append.mp hr with hr | hserver
  · rcases List.mem_append.mp hr with hr | hnetwork
    · rcases List.mem_append.mp hr with haccess | hgroup
      · obtain ⟨hreferences, hdepends⟩ := hnone r haccess
        exact .of_none (hdepends ▸ List.nodup_nil) hreferences
      · exact covered_serverGroups r hgroup
    · obtain ⟨n, -, hr⟩ := List.mem_flatMap.mp hnetwork
      exact n.covered r hr
  · obtain ⟨before, s, after, ho, hr⟩ := mem_serverSteps.mp hserver
    have hs : s ∈ t.servers := mem_placementOrder.mp (by simp [ho])
    have hcovered := s.covered (networks_nodup h hn hs)
      (fun n hm => subnet_mem_resources (Holds.mem_networks_of_attached hm)) r hr
    rwa [h.server_context hs] at hcovered

end Topology

namespace Context
variable {c : Context}

theorem outputs_of_compile (h : c.compile.1 = .ok g) :
    ∀ e ∈ g.outputs.entries, .report e.1 e.2 ∈ c.topology.steps := by
  rw [requests_of_compile h]
  exact fun e he => mem_requestsOf.mp (SortedMap.mem_of_mem_ofList he)

/-- In a compiled graph no dependency is listed twice, and whatever a resource refers to stands before it
and is the key pair, the security group, or a dependency over one or more edges. Whatever an output refers
to is a resource of the graph. -/
theorem references_resolve {declared : ContextDeclaration} (h : Context.build declared = .ok c)
    (hg : c.compile.1 = .ok g) :
    (∀ earlier r later, g.resources = earlier ++ r :: later →
      r.dependsOn.Nodup ∧ ∀ v ∈ r.ownProperties.under "get_resource",
        ∃ d ∈ earlier, v = .str d.name ∧ (d.name = keypairName c.name ∨
          d.name = securityGroupName c.name ∨ Relation.TransGen g.DependsOn r d)) ∧
    ∀ e ∈ g.outputs.entries,
      (∀ v ∈ e.2.value.under "get_resource", ∃ d ∈ g.resources, v = .str d.name) ∧
      ∀ v ∈ e.2.value.under "get_attr", ∃ d ∈ g.resources, ∃ path, v = .arr (.str d.name :: path) := by
  have hw := (build_ok h).2
  have hplan := nodup_of_compile hw hg
  have hresources := resources_of_compile hg
  have hnames := names_nodup_of_compile hw hg
  have hgrounded : Grounded [] g.resources := hresources ▸ Topology.grounded_steps hw
  refine ⟨fun earlier r later hsplit => ?_, fun e he => ?_⟩
  · have hcovered : r.Covered [keypairName c.name, securityGroupName c.name] g.resources := by
      have hmem : r ∈ g.resources := by simp [hsplit]
      rw [hresources] at hmem ⊢
      exact Topology.covered hw hplan r hmem
    refine ⟨hcovered.nodup, fun v hv => ?_⟩
    obtain ⟨d, hd, hvalue, hresolved⟩ := hcovered.resolve hgrounded hnames hsplit
      (Topology.access_first (hresources ▸ hsplit)) v hv
    refine ⟨d, hd, hvalue, ?_⟩
    rwa [List.mem_cons, List.mem_singleton, or_assoc] at hresolved
  · obtain ⟨d, hd, hvalue⟩ := c.topology.answerable _ (outputs_of_compile hg e he)
    rw [← hresources] at hd
    rcases hvalue with hvalue | ⟨path, hpath, hvalue⟩
    · rw [hvalue]
      refine ⟨fun v hv => ⟨d, hd, by simpa [resourceRef] using hv⟩, fun v hv => ?_⟩
      simp [resourceRef] at hv
    · have hnone : ∀ key, path.flatMap (under key) = [] := fun key =>
        List.flatMap_eq_nil_iff.mpr fun x hx => hpath x hx key
      rw [hvalue]
      refine ⟨fun v hv => ?_, fun v hv => ⟨d, hd, path, by simpa [attributeRef, hnone] using hv⟩⟩
      simp [attributeRef, hnone] at hv

/-- The port of a server refers to the network, and depends on it over the subnet only. -/
theorem references_resolve_sample : ∃ c g, Context.build sampleDeclaration = .ok c ∧
    c.compile.1 = .ok g ∧
    (∃ earlier r later d, g.resources = earlier ++ r :: later ∧ d ∈ earlier ∧
      r.name = "db.demo-mgmt-port" ∧ d.name = "demo-mgmt" ∧
      .str d.name ∈ r.ownProperties.under "get_resource" ∧ d.name ∉ r.dependsOn ∧
      Relation.TransGen g.DependsOn r d) ∧
    (∀ earlier r later, g.resources = earlier ++ r :: later →
      r.dependsOn.Nodup ∧ ∀ v ∈ r.ownProperties.under "get_resource",
        ∃ d ∈ earlier, v = .str d.name ∧ (d.name = keypairName c.name ∨
          d.name = securityGroupName c.name ∨ Relation.TransGen g.DependsOn r d)) ∧
    ∀ e ∈ g.outputs.entries,
      (∀ v ∈ e.2.value.under "get_resource", ∃ d ∈ g.resources, v = .str d.name) ∧
      ∀ v ∈ e.2.value.under "get_attr", ∃ d ∈ g.resources, ∃ path, v = .arr (.str d.name :: path) := by
  obtain ⟨c, g, hc, hg, hcontext, r, hr, hname, hdirect, v, hv, hnamed⟩ :
      ∃ c g, Context.build sampleDeclaration = .ok c ∧ c.compile.1 = .ok g ∧ c.name = "demo" ∧
        ∃ r ∈ g.resources, r.name = "db.demo-mgmt-port" ∧ "demo-mgmt" ∉ r.dependsOn ∧
          ∃ v ∈ r.ownProperties.under "get_resource", v.string? = some "demo-mgmt" :=
    exists_compiled (by decide +kernel)
  obtain ⟨hresolve, houtputs⟩ := references_resolve hc hg
  obtain ⟨earlier, later, hsplit⟩ := List.append_of_mem hr
  obtain ⟨d, hd, rfl, hreached⟩ := (hresolve earlier r later hsplit).2 v hv
  have hnetwork : d.name = "demo-mgmt" := Option.some.inj hnamed
  have hdepends : Relation.TransGen g.DependsOn r d := by
    rw [hcontext, hnetwork] at hreached
    exact (hreached.resolve_left (by decide)).resolve_left (by decide)
  exact ⟨c, g, hc, hg, ⟨earlier, r, later, d, hsplit, hd, hname, hnetwork, hv, hnetwork ▸ hdirect, hdepends⟩,
    hresolve, houtputs⟩

end Context
end Provision
