import Provision.Context
import Provision.Proofs.Layout.Grounding

/-! Compiling a context: the graph is the plan of the topology, and a graph there is unless the plan
holds a name twice. -/
namespace Provision

/-- Two networks, groups of every kind, and two servers that share a placement group. -/
def sampleDeclaration : ContextDeclaration where
  name := "demo"
  image := some "cirros"
  placementGroups := .ofList [("apart", ⟨"availability"⟩), ("near", ⟨"affinity"⟩)]
  serverGroups := .ofList [("pair", ⟨"anti-affinity"⟩), ("unused", ⟨"affinity"⟩)]
  networks := .ofList [("mgmt", { externalNetwork := some "public" }), ("data", {})]
  servers := .ofList [
    ("web", { floatingIp := true, networks := some ["mgmt"], placement := some (.one "near") }),
    ("db", { instances := 2, placement := some (.many ["near", "apart"]),
             serverGroup := some "pair", volume := some (.inline 5), flavor := some (.inline {}) })]

namespace Context
variable {c : Context} {g : Graph}

/-- A context that was built has a topology that was built, and nothing is known of it. -/
theorem build_ok {declared : ContextDeclaration} (h : Context.build declared = .ok c) :
    c.topology.declared = declared ∧ c.topology.WellFormed := by
  obtain ⟨t, ht, rfl⟩ := Checks.map_ok h
  exact Topology.wellFormed_of_build ht

theorem compile_of_run {p : Progress} {result : Option GraphError}
    (h : Progress.run ⟨.empty ("Stack for context " ++ c.topology.name), c.ports⟩ c.topology.steps =
      (p, result)) :
    c.compile.1 = result.elim (.ok p.graph) .error := by
  unfold compile Topology.layOut
  rw [h]
  cases result <;> rfl

/-- A graph that was compiled comes from a run of all the steps. -/
theorem run_of_compile (h : c.compile.1 = .ok g) : ∃ p,
    Progress.run ⟨.empty ("Stack for context " ++ c.topology.name), c.ports⟩ c.topology.steps =
      (p, none) ∧ p.graph = g := by
  rcases hr : Progress.run ⟨.empty ("Stack for context " ++ c.topology.name), c.ports⟩
    c.topology.steps with ⟨p, _ | e⟩
  · rw [compile_of_run hr] at h
    exact ⟨p, rfl, Except.ok.inj h⟩
  · rw [compile_of_run hr] at h
    cases h

/-- The graph of a compiled context holds the resources that the steps of the layout declare. -/
theorem resources_of_compile (h : c.compile.1 = .ok g) :
    g.resources = resourcesOf c.topology.steps := by
  obtain ⟨p, hr, rfl⟩ := run_of_compile h
  exact Progress.resources_of_run hr

/-- Its table of outputs is made of what the steps ask for, and of two with one name the later counts. -/
theorem requests_of_compile (h : c.compile.1 = .ok g) :
    g.outputs = .ofList (requestsOf c.topology.steps) := by
  obtain ⟨p, hr, rfl⟩ := run_of_compile h
  exact Progress.outputs_of_run hr

theorem entries_of_compile (hw : c.topology.WellFormed) (h : c.compile.1 = .ok g) :
    g.resources.map Resource.entry = c.topology.plan := by
  rw [resources_of_compile h, Topology.entries_steps hw]

theorem compile_of_nodup (hw : c.topology.WellFormed) (hn : (c.topology.plan.map Prod.fst).Nodup) :
    ∃ g, c.compile.1 = .ok g := by
  obtain ⟨p, hp⟩ := Progress.run_of_nodup
    (p := ⟨.empty ("Stack for context " ++ c.topology.name), c.ports⟩)
    (Topology.grounded_steps hw) (Topology.names_nodup hw hn)
  exact ⟨p.graph, compile_of_run hp⟩

theorem compile_of_repeat (hw : c.topology.WellFormed) {before after : List PlanEntry}
    {entry : PlanEntry} (hp : c.topology.plan = before ++ entry :: after)
    (hn : (before.map Prod.fst).Nodup) (he : entry.1 ∈ before.map Prod.fst) :
    c.compile.1 = .error (.duplicateResource entry.1) := by
  rw [← Topology.entries_steps hw] at hp
  obtain ⟨rs, rest, hs, rfl, hrest⟩ := List.map_eq_append_iff.mp hp
  obtain ⟨r, rs', rfl, rfl, rfl⟩ := List.map_eq_cons_iff.mp hrest
  rw [← map_name_eq] at hn he
  obtain ⟨p, hrun⟩ := Progress.run_of_repeat
    (p := ⟨.empty ("Stack for context " ++ c.topology.name), c.ports⟩) hs
    (Topology.grounded_steps hw) hn he
  exact compile_of_run hrun

/-- A graph there is only if the plan holds no name twice. -/
theorem nodup_of_compile (hw : c.topology.WellFormed) (h : c.compile.1 = .ok g) :
    (c.topology.plan.map Prod.fst).Nodup := by
  by_contra hrepeat
  obtain ⟨before, entry, after, hplan, hn, hname⟩ := exists_firstRepeat hrepeat
  rw [compile_of_repeat hw hplan hn hname] at h
  cases h

theorem names_nodup_of_compile (hw : c.topology.WellFormed) (h : c.compile.1 = .ok g) :
    (g.resources.map Resource.name).Nodup :=
  resources_of_compile h ▸ Topology.names_nodup hw (nodup_of_compile hw h)

/-- The graph of a context that was built is the plan of its topology, whose parts are those of the
declaration. There is a graph if and only if the names of the plan differ from each other, and otherwise
the error names the first one that came before. -/
theorem compile_follows_plan {declared : ContextDeclaration} (h : Context.build declared = .ok c) :
    (c.topology.declared = declared ∧ c.topology.WellFormed ∧
      c.topology.placementOrder.Perm c.topology.servers) ∧
    ((∃ g, c.compile.1 = .ok g) ↔ (c.topology.plan.map Prod.fst).Nodup) ∧
    (∀ g, c.compile.1 = .ok g → g.resources.map Resource.entry = c.topology.plan) ∧
    (∀ e, c.compile.1 = .error e → ∃ before entry after,
      c.topology.plan = before ++ entry :: after ∧ (before.map Prod.fst).Nodup ∧
        entry.1 ∈ before.map Prod.fst ∧ e = .duplicateResource entry.1) ∧
    ∀ resource dependency, c.compile.1 ≠ .error (.missingDependency resource dependency) := by
  obtain ⟨hdeclared, hw⟩ := build_ok h
  have hiff : (∃ g, c.compile.1 = .ok g) ↔ (c.topology.plan.map Prod.fst).Nodup :=
    ⟨fun ⟨g, hg⟩ => nodup_of_compile hw hg, compile_of_nodup hw⟩
  have herror : ∀ e, c.compile.1 = .error e → ∃ before entry after,
      c.topology.plan = before ++ entry :: after ∧ (before.map Prod.fst).Nodup ∧
        entry.1 ∈ before.map Prod.fst ∧ e = .duplicateResource entry.1 := by
    intro e he
    have hrepeat : ¬ (c.topology.plan.map Prod.fst).Nodup := by
      intro hn
      obtain ⟨g, hg⟩ := hiff.mpr hn
      rw [hg] at he
      cases he
    obtain ⟨before, entry, after, hplan, hn, hname⟩ := exists_firstRepeat hrepeat
    rw [compile_of_repeat hw hplan hn hname] at he
    exact ⟨before, entry, after, hplan, hn, hname, (Except.error.inj he).symm⟩
  refine ⟨⟨hdeclared, hw, c.topology.placementOrder_perm⟩, hiff,
    fun g hg => entries_of_compile hw hg, herror, fun r d he => ?_⟩
  obtain ⟨-, entry, -, -, -, -, hmissing⟩ := herror _ he
  cases hmissing

theorem compile_follows_plan_sample : ∃ c, Context.build sampleDeclaration = .ok c ∧
    (c.topology.declared = sampleDeclaration ∧ c.topology.WellFormed ∧
      c.topology.placementOrder.Perm c.topology.servers) ∧
    ((∃ g, c.compile.1 = .ok g) ↔ (c.topology.plan.map Prod.fst).Nodup) ∧
    (∀ g, c.compile.1 = .ok g → g.resources.map Resource.entry = c.topology.plan) ∧
    (∀ e, c.compile.1 = .error e → ∃ before entry after,
      c.topology.plan = before ++ entry :: after ∧ (before.map Prod.fst).Nodup ∧
        entry.1 ∈ before.map Prod.fst ∧ e = .duplicateResource entry.1) ∧
    ∀ resource dependency, c.compile.1 ≠ .error (.missingDependency resource dependency) := by
  obtain ⟨c, hc⟩ := Checks.exists_ok
    (by decide +kernel : (Context.build sampleDeclaration).toOption.isSome = true)
  exact ⟨c, hc, compile_follows_plan hc⟩

/-- What is checked of the context and the graph of a declaration holds of them. -/
theorem exists_compiled {declared : ContextDeclaration} {p : Context → Graph → Prop}
    (h : ∃ c ∈ (Context.build declared).toOption, ∃ g ∈ c.compile.1.toOption, p c g) :
    ∃ c g, Context.build declared = .ok c ∧ c.compile.1 = .ok g ∧ p c g := by
  obtain ⟨c, hc, g, hg, hp⟩ := h
  refine ⟨c, g, ?_, ?_, hp⟩
  · cases hbuild : Context.build declared with
    | error e => rw [hbuild] at hc; cases hc
    | ok c' => rw [hbuild] at hc; cases hc; rfl
  · cases hcompile : c.compile.1 with
    | error e => rw [hcompile] at hg; cases hg
    | ok g' => rw [hcompile] at hg; cases hg; rfl

/-- The sample is compiled as well. -/
theorem sample_compiles : ∃ c g, Context.build sampleDeclaration = .ok c ∧ c.compile.1 = .ok g := by
  obtain ⟨c, hc⟩ := Checks.exists_ok
    (by decide +kernel : (Context.build sampleDeclaration).toOption.isSome = true)
  have hcompiles : (Context.build sampleDeclaration).toOption.all
      (fun c => c.compile.1.toOption.isSome) = true := by decide +kernel
  rw [hc] at hcompiles
  obtain ⟨g, hg⟩ := Checks.exists_ok hcompiles
  exact ⟨c, g, hc, hg⟩

end Context
end Provision
