import Provision.Proofs.Deployment.Recompilation
import Provision.Proofs.Session.Registration
import Provision.Render

/-! What a run prints of a file before it deploys anything: the templates of the contexts, in the order of
the file, up to the first that the registry refuses or that does not compile. A context is laid out as soon
as it is built, which changes nothing for those that are built after it. -/
namespace Provision

/-- The contexts of the declarations are built one after another, and every one of them compiles: their
graphs, and the registry after the last. -/
inductive Rendered : Registry → List ContextDeclaration → List Graph → Registry → Prop
  | done (r : Registry) : Rendered r [] [] r
  | next {r r' r'' : Registry} {declared : ContextDeclaration} {c : Context} {g : Graph}
      {rest : List ContextDeclaration} {graphs : List Graph} (built : r.build declared = (.ok c, r'))
      (compiled : c.compile.1 = .ok g) (others : Rendered r' rest graphs r'') :
      Rendered r (declared :: rest) (g :: graphs) r''

/-- The declaration is one that ends a run: the registry refuses it, or its context does not compile. -/
inductive Stops (r : Registry) (declared : ContextDeclaration) : RenderError → Prop
  | refused {e : TopologyError} (refused : (r.build declared).1 = .error e) :
      Stops r declared (.invalidTopology declared.name e)
  | uncompiled {c : Context} {e : GraphError} (built : (r.build declared).1 = .ok c)
      (uncompiled : c.compile.1 = .error e) : Stops r declared (.notCompiled e)

/-- The first declaration that ends a run, and the graphs of those before it. -/
def Halts (r : Registry) (declarations : List ContextDeclaration) (graphs : List Graph)
    (error : RenderError) : Prop :=
  ∃ before declared after r', declarations = before ++ declared :: after ∧ Rendered r before graphs r' ∧
    Stops r' declared error

theorem halts_or_rendered (r : Registry) (declarations : List ContextDeclaration) :
    (∃ graphs error, Halts r declarations graphs error) ∨ ∃ graphs r', Rendered r declarations graphs r' := by
  induction declarations generalizing r with
  | nil => exact Or.inr ⟨[], r, .done r⟩
  | cons declared rest ih =>
    rcases hbuild : r.build declared with ⟨e | c, r'⟩
    · exact Or.inl ⟨[], _, [], declared, rest, r, rfl, .done r, .refused (by rw [hbuild])⟩
    cases hg : c.compile.1 with
    | error e => exact Or.inl ⟨[], _, [], declared, rest, r, rfl, .done r, .uncompiled (by rw [hbuild]) hg⟩
    | ok g =>
      rcases ih r' with ⟨graphs, error, before, last, after, r'', rfl, hrendered, hstops⟩ |
        ⟨graphs, r'', hrendered⟩
      · exact Or.inl ⟨g :: graphs, error, declared :: before, last, after, r'', rfl,
          .next hbuild hg hrendered, hstops⟩
      · exact Or.inr ⟨g :: graphs, r'', .next hbuild hg hrendered⟩

/-! The session of a run. -/

namespace Session
variable {s s' : Session}

/-- What a session refuses, and why, is told by the topologies of its contexts. -/
theorem newContext_congr (h : s.contexts.map Context.topology = s'.contexts.map Context.topology)
    (declared : ContextDeclaration) : s.newContext declared = s'.newContext declared := by
  have hcontext : ∀ s : Session, ∀ name, (s.context? name).isSome =
      (s.contexts.map Context.topology).any fun t => t.name == name := by
    intro s name
    rw [context?, List.any_map, List.isSome_find?]
    rfl
  have hplacement : ∀ s : Session, s.placementGroups =
      (s.contexts.map Context.topology).flatMap fun t => t.placementGroups.map Group.name := by
    intro s
    rw [placementGroups, List.flatMap_map]
  have hserver : ∀ s : Session, s.serverGroups =
      (s.contexts.map Context.topology).flatMap fun t => t.serverGroups.map Group.name := by
    intro s
    rw [serverGroups, List.flatMap_map]
  unfold newContext takenName?
  rw [hcontext, hcontext, hplacement, hplacement, hserver, hserver, h]

theorem declared_of_newContext {declared : ContextDeclaration} {c : Context}
    (hc : s.newContext declared = .ok c) : c.topology.declared = declared := by
  unfold newContext at hc
  split at hc
  · cases hc
  · exact (Context.build_ok hc).1

theorem Sound.add {declared : ContextDeclaration} {c : Context} (hs : s.Sound)
    (hc : s.newContext declared = .ok c) : (s.add c).Sound := by
  have hbuild := hs.build declared
  rwa [Session.build, hc] at hbuild

end Session

/-- A session whose contexts are those of the registry, except for what has become known of them. -/
structure Mirrors (r : Registry) (s : Session) : Prop where
  inStep : r.InStep
  sound : r.session.Sound
  topologies : s.contexts.map Context.topology = r.contexts.map Context.topology
  compiles : ∀ c ∈ s.contexts, ∃ g, c.compile.1 = .ok g

namespace Mirrors
variable {r r' : Registry} {s : Session} {declared : ContextDeclaration}

theorem empty : Mirrors {} {} :=
  ⟨⟨.empty _ _, .empty _ _, .empty _ _, .empty _ _⟩, Session.sound_built [], rfl, fun _ hc => absurd hc List.not_mem_nil⟩

/-- The session builds what the registry builds. -/
theorem newContext_eq (h : Mirrors r s) (declared : ContextDeclaration) :
    s.newContext declared = (r.build declared).1 := by
  rw [Session.newContext_congr h.topologies, h.inStep.build_eq]
  cases r.session.newContext declared <;> rfl

theorem registered (h : Mirrors r s) {c : Context} (built : r.build declared = (.ok c, r')) :
    r' = r.add c := by
  rw [h.inStep.build_eq] at built
  cases hc : r.session.newContext declared with
  | error e =>
    rw [hc] at built
    cases built
  | ok c' =>
    rw [hc] at built
    cases built
    rfl

theorem add {c : Context} {g : Graph} (h : Mirrors r s) (hc : s.newContext declared = .ok c)
    (hg : c.compile.1 = .ok g) : Mirrors (r.add c) (s.add c.compile.2) := by
  refine ⟨h.inStep.add c, h.sound.add (Session.newContext_congr h.topologies declared ▸ hc), ?_, ?_⟩
  · change (s.contexts ++ [c.compile.2]).map Context.topology = (r.contexts ++ [c]).map Context.topology
    rw [List.map_append, List.map_append, h.topologies]
    rfl
  · intro c' hc'
    rcases List.mem_append.mp hc' with hc' | hc'
    · exact h.compiles c' hc'
    · have hagain : c.compile.2.compile.1 = c.compile.1 := Context.compile_congr rfl
      rw [List.mem_singleton.mp hc']
      exact ⟨g, hagain.trans hg⟩

end Mirrors

namespace Render
variable {s : Session} {declared : ContextDeclaration} {rest : List ContextDeclaration} {c : Context}

theorem templates_refused {e : TopologyError} (hc : s.newContext declared = .error e) :
    templates (declared :: rest) s = ([], .error (.invalidTopology declared.name e)) := by
  rw [templates, hc]

theorem templates_built (hc : s.newContext declared = .ok c) : templates (declared :: rest) s =
    match c.compile.1 with
    | .error e => ([], .error (.notCompiled e))
    | .ok g => (g.template.pretty :: (templates rest (s.add c.compile.2)).1,
        (templates rest (s.add c.compile.2)).2) := by
  rw [templates, hc]
  dsimp only
  rcases c.compile with ⟨_ | _, _⟩ <;> rfl

/-- A declaration that stops a run stops the printing. -/
theorem templates_stopped {r : Registry} {error : RenderError} (h : Mirrors r s)
    (hstops : Stops r declared error) : templates (declared :: rest) s = ([], .error error) := by
  have hbuild := h.newContext_eq declared
  cases hstops with
  | refused refused => exact templates_refused (hbuild.trans refused)
  | uncompiled built uncompiled => rw [templates_built (hbuild.trans built), uncompiled]

/-- Contexts that compile are printed, and what follows them is printed after them. -/
theorem templates_rendered {r r' : Registry} {declarations : List ContextDeclaration} {graphs : List Graph}
    (hr : Rendered r declarations graphs r') (h : Mirrors r s) : ∃ s', Mirrors r' s' ∧
      (s'.contexts.map fun c => c.topology.declared) =
        (s.contexts.map fun c => c.topology.declared) ++ declarations ∧
      ∀ rest, templates (declarations ++ rest) s =
        ((graphs.map fun g => g.template.pretty) ++ (templates rest s').1, (templates rest s').2) := by
  induction hr generalizing s with
  | done r => exact ⟨s, h, (List.append_nil _).symm, fun rest => rfl⟩
  | next built compiled _ ih =>
    have hc := (h.newContext_eq _).trans (congrArg Prod.fst built)
    obtain rfl := h.registered built
    obtain ⟨s', hmirrors, hdeclared, htemplates⟩ := ih (h.add hc compiled)
    refine ⟨s', hmirrors, ?_, fun rest => ?_⟩
    · rw [hdeclared, ← Session.declared_of_newContext hc]
      simp [Session.add, Context.compile]
    · rw [List.cons_append, templates_built hc, compiled]
      dsimp only
      rw [htemplates, List.map_cons, List.cons_append]

end Render
end Provision
