import Mathlib.Data.List.Nodup
import Provision.Proofs.Session.Lookup
import Provision.Proofs.SortedMap
import Provision.Registry

/-! Contexts are built into a session all or nothing: one that cannot be built, or takes a name that is
taken, changes neither the session nor an index, and any other becomes the last. The indexes are in step
with the session after any builds, so that they decide and find what looking through the session does. -/
namespace Provision

namespace ContextDeclaration

/-- The names of a declaration that contexts have taken: its own, and those of its placement groups and
of its server groups, in this order. -/
def clashes (d : ContextDeclaration) (contexts : List Context) : List TopologyError :=
  (if ∃ c ∈ contexts, c.name = d.name then [.duplicate .context d.name] else []) ++
  ((d.placementGroups.keys.filter fun group =>
    ∃ c ∈ contexts, group ∈ c.topology.declared.placementGroups.keys).map (.duplicate .placementGroup) ++
  (d.serverGroups.keys.filter fun group =>
    ∃ c ∈ contexts, group ∈ c.topology.declared.serverGroups.keys).map (.duplicate .serverGroup))

/-- Two declarations that share neither their names nor a group. -/
structure Apart (d d' : ContextDeclaration) : Prop where
  names : d.name ≠ d'.name
  placementGroups : d.placementGroups.keys.Disjoint d'.placementGroups.keys
  serverGroups : d.serverGroups.keys.Disjoint d'.serverGroups.keys

theorem clashes_eq_nil_iff (d : ContextDeclaration) (contexts : List Context) :
    d.clashes contexts = [] ↔ ∀ c ∈ contexts, c.topology.declared.Apart d := by
  have hname : ∀ c : Context, c.name = c.topology.declared.name := fun _ => rfl
  simp only [clashes, List.append_eq_nil_iff, List.map_eq_nil_iff, List.filter_eq_nil_iff,
    decide_eq_true_eq, hname]
  constructor
  · rintro ⟨hd, hp, hs⟩ c hc
    have hfree : ¬ ∃ c ∈ contexts, c.topology.declared.name = d.name := fun htaken => by
      rw [if_pos htaken] at hd
      cases hd
    exact ⟨fun he => hfree ⟨c, hc, he⟩, fun group hmem hnew => hp group hnew ⟨c, hc, hmem⟩,
      fun group hmem hnew => hs group hnew ⟨c, hc, hmem⟩⟩
  · intro h
    exact ⟨if_neg fun ⟨c, hc, he⟩ => (h c hc).names he,
      fun group hnew ⟨c, hc, hmem⟩ => (h c hc).placementGroups hmem hnew,
      fun group hnew ⟨c, hc, hmem⟩ => (h c hc).serverGroups hmem hnew⟩

end ContextDeclaration

/-! A table that is kept while contexts are added. -/

/-- The table tells of a name what there is to tell of the last context that has this name, and of the
position of the context. -/
def Indexes {α : Type} (table : SortedMap α) (names : Context → List String) (value : Context × Nat → α)
    (contexts : List Context) : Prop :=
  ∀ name, table.find? name = (contexts.zipIdx.reverse.find? fun e => name ∈ names e.1).map value

namespace Indexes
variable {α : Type} {table : SortedMap α} {names : Context → List String} {value : Context × Nat → α}
  {contexts : List Context}

theorem empty (names : Context → List String) (value : Context × Nat → α) : Indexes ∅ names value [] :=
  fun _ => rfl

theorem insertAll (h : Indexes table names value contexts) (c : Context) :
    Indexes (table.insertAll (names c) (value (c, contexts.length))) names value (contexts ++ [c]) := by
  intro name
  rw [SortedMap.find?_insertAll, h name]
  by_cases hname : name ∈ names c <;> simp [List.zipIdx_append, hname]

theorem contains_iff (h : Indexes table names value contexts) (name : String) :
    table.contains name = true ↔ ∃ c ∈ contexts, name ∈ names c := by
  rw [SortedMap.contains_iff, ← SortedMap.find?_isSome, h name, Option.isSome_map, List.find?_isSome]
  constructor
  · rintro ⟨e, he, hname⟩
    exact ⟨e.1, List.fst_mem_of_mem_zipIdx (List.mem_reverse.mp he), by simpa using hname⟩
  · rintro ⟨c, hc, hname⟩
    obtain ⟨i, hi⟩ := List.getElem?_of_mem hc
    exact ⟨(c, i), List.mem_reverse.mpr (List.mem_zipIdx_iff_getElem?.mpr hi), by simpa using hname⟩

/-- A table of positions leads to the last context of the name. -/
theorem getElem? {table : SortedMap Nat} (h : Indexes table names Prod.snd contexts) (name : String) :
    ((table.find? name).bind fun i => contexts[i]?) = contexts.reverse.find? fun c => name ∈ names c := by
  have hlast : (contexts.reverse.find? fun c => decide (name ∈ names c)) =
      (contexts.zipIdx.reverse.find? fun e => name ∈ names e.1).map Prod.fst := by
    conv_lhs => rw [← List.zipIdx_map_fst 0 contexts, ← List.map_reverse, List.find?_map]
    rfl
  rw [h name, hlast]
  cases hfound : contexts.zipIdx.reverse.find? fun e => decide (name ∈ names e.1) with
  | none => rfl
  | some e =>
    have he : e ∈ contexts.zipIdx := List.mem_reverse.mp (List.mem_of_find?_eq_some hfound)
    exact List.mem_zipIdx_iff_getElem?.mp he

end Indexes


/-! What a session refuses. -/

namespace Session
variable {session : Session}

/-- A session looks for the names that its contexts have taken. -/
theorem Sound.takenName?_eq (h : session.Sound) (declared : ContextDeclaration) :
    session.takenName? declared = (declared.clashes session.contexts).head? := by
  have hcontext : (session.context? declared.name).isSome = true ↔
      ∃ c ∈ session.contexts, c.name = declared.name := by
    simp [context?]
  have hplacement : session.placementGroups.contains = fun group =>
      decide (∃ c ∈ session.contexts, group ∈ c.topology.declared.placementGroups.keys) := by
    funext group
    rw [Bool.eq_iff_iff, List.contains_iff_mem, decide_eq_true_iff, placementGroups, List.mem_flatMap]
    exact exists_congr fun c => and_congr_right fun hc =>
      (h.contexts c hc).placementGroupNames ▸ Iff.rfl
  have hserver : session.serverGroups.contains = fun group =>
      decide (∃ c ∈ session.contexts, group ∈ c.topology.declared.serverGroups.keys) := by
    funext group
    rw [Bool.eq_iff_iff, List.contains_iff_mem, decide_eq_true_iff, serverGroups, List.mem_flatMap]
    exact exists_congr fun c => and_congr_right fun hc =>
      (h.contexts c hc).serverGroupNames ▸ Iff.rfl
  unfold takenName? ContextDeclaration.clashes
  by_cases hname : ∃ c ∈ session.contexts, c.name = declared.name
  · rw [if_pos (hcontext.mpr hname), if_pos hname]
    rfl
  · rw [if_neg (hcontext.not.mpr hname), if_neg hname, List.nil_append, List.head?_append,
      List.head?_map, List.head?_map, List.head?_filter, List.head?_filter, hplacement, hserver]
    cases declared.placementGroups.keys.find? _ <;> rfl

/-- A context that is built has its names for itself. -/
theorem Sound.newContext_ok (h : session.Sound) {declared : ContextDeclaration} {c : Context}
    (hc : session.newContext declared = .ok c) : declared.clashes session.contexts = [] ∧
      Context.build declared = .ok c := by
  unfold newContext at hc
  split at hc
  · cases hc
  · next hfree =>
    rw [h.takenName?_eq, List.head?_eq_none_iff] at hfree
    exact ⟨hfree, hc⟩

theorem Sound.newContext_error_iff (h : session.Sound) (declared : ContextDeclaration)
    (e : TopologyError) : session.newContext declared = .error e ↔
      (declared.clashes session.contexts).head? = some e ∨
        declared.clashes session.contexts = [] ∧ Context.build declared = .error e := by
  unfold newContext
  rw [h.takenName?_eq]
  cases declared.clashes session.contexts <;> simp

theorem built_append_singleton (declarations : List ContextDeclaration) (declared : ContextDeclaration) :
    built (declarations ++ [declared]) =
      ((built declarations).build declared).toOption.getD (built declarations) := by
  simp [built]

/-- No two contexts of a session share a name or a group. -/
theorem built_apart (declarations : List ContextDeclaration) : (built declarations).contexts.Pairwise
    fun c c' => c.topology.declared.Apart c'.topology.declared := by
  induction declarations using List.reverseRecOn with
  | nil => exact .nil
  | append_singleton declarations declared ih =>
    rw [built_append_singleton]
    cases hb : (built declarations).build declared with
    | error e => exact ih
    | ok session' =>
      obtain ⟨c, hc, rfl⟩ := Checks.map_ok hb
      obtain ⟨hfree, hbuild⟩ := (sound_built declarations).newContext_ok hc
      obtain ⟨rfl, -⟩ := Context.build_ok hbuild
      refine List.pairwise_append.mpr ⟨ih, List.pairwise_singleton _ _, fun c' hc' c'' hc'' => ?_⟩
      rw [List.mem_singleton.mp hc'']
      exact (ContextDeclaration.clashes_eq_nil_iff _ _).mp hfree c' hc'

theorem Sound.context?_eq_some (h : session.Sound) {name : String} {c : Context} :
    session.context? name = some c ↔ c ∈ session.contexts ∧ c.name = name :=
  find?_iff_of_nodup h.names

end Session

/-! What a registry does is what its session does. -/

theorem findSome?_eq_find?_bind {α β : Type} (f : α → Option β) (xs : List α) :
    xs.findSome? f = (xs.find? fun x => (f x).isSome).bind f := by
  induction xs with
  | nil => rfl
  | cons x xs ih => cases hx : f x <;> simp [hx, ih]

namespace Registry
variable {r : Registry} {declarations : List ContextDeclaration}

/-- The registry after declarations one after another, of which some may be refused. -/
def built (declarations : List ContextDeclaration) : Registry :=
  declarations.foldl (fun r declared => (r.build declared).2) {}

/-- Every table tells of the contexts of the session. -/
structure InStep (r : Registry) : Prop where
  positions : Indexes r.positions (fun c => [c.name]) Prod.snd r.contexts
  placementGroups : Indexes r.placementGroups (fun c => c.topology.placementGroups.map Group.name)
    (fun e => e.1.name) r.contexts
  serverGroups : Indexes r.serverGroups (fun c => c.topology.serverGroups.map Group.name)
    (fun e => e.1.name) r.contexts
  servers : Indexes r.servers (fun c => c.topology.servers.map Server.dn) Prod.snd r.contexts

theorem InStep.add (h : r.InStep) (c : Context) : (r.add c).InStep where
  positions := h.positions.insertAll c
  placementGroups := h.placementGroups.insertAll c
  serverGroups := h.serverGroups.insertAll c
  servers := h.servers.insertAll c

theorem InStep.takenName?_eq (h : r.InStep) (declared : ContextDeclaration) :
    r.takenName? declared = r.session.takenName? declared := by
  have hcontext : r.positions.contains declared.name = (r.session.context? declared.name).isSome := by
    rw [Bool.eq_iff_iff, h.positions.contains_iff, Session.context?, List.find?_isSome]
    exact exists_congr fun c => and_congr_right' (by rw [List.mem_singleton, beq_iff_eq, eq_comm])
  have hplacement : r.placementGroups.contains = r.session.placementGroups.contains := by
    funext group
    rw [Bool.eq_iff_iff, h.placementGroups.contains_iff, List.contains_iff_mem]
    exact List.mem_flatMap.symm
  have hserver : r.serverGroups.contains = r.session.serverGroups.contains := by
    funext group
    rw [Bool.eq_iff_iff, h.serverGroups.contains_iff, List.contains_iff_mem]
    exact List.mem_flatMap.symm
  rewrite [takenName?, Session.takenName?, hcontext, hplacement, hserver]
  rfl

/-- What building one more context does, told by the session alone. -/
theorem InStep.build_eq (h : r.InStep) (declared : ContextDeclaration) : r.build declared =
    match r.session.newContext declared with
    | .error e => (.error e, r)
    | .ok c => (.ok c, r.add c) := by
  rw [Registry.build, Session.newContext, h.takenName?_eq]
  cases r.session.takenName? declared <;> rfl

theorem built_append_singleton (declarations : List ContextDeclaration) (declared : ContextDeclaration) :
    built (declarations ++ [declared]) = ((built declarations).build declared).2 := by
  simp [built]

theorem built_inStep (declarations : List ContextDeclaration) :
    (built declarations).InStep ∧ (built declarations).session = Session.built declarations := by
  induction declarations using List.reverseRecOn with
  | nil => exact ⟨⟨.empty _ _, .empty _ _, .empty _ _, .empty _ _⟩, rfl⟩
  | append_singleton declarations declared ih =>
    obtain ⟨hstep, hsession⟩ := ih
    rw [built_append_singleton, Session.built_append_singleton, hstep.build_eq, ← hsession,
      Session.build]
    cases (built declarations).session.newContext declared with
    | error e => exact ⟨hstep, rfl⟩
    | ok c => exact ⟨hstep.add c, rfl⟩

/-- A registry that answers as a session does, and goes on as it does. -/
structure Follows (r : Registry) (session : Session) : Prop where
  session_eq : r.session = session
  inStep : r.InStep
  context? : ∀ name, r.context? name = session.context? name
  server? : ∀ dn, r.server? dn = session.server? dn
  build : ∀ declared,
    session.build declared = (r.build declared).1.map fun _ => (r.build declared).2.session

theorem InStep.context?_eq (h : r.InStep) (hs : r.session.Sound) (name : String) :
    r.context? name = r.session.context? name := by
  have hname : (fun c : Context => decide (name ∈ [c.name])) = fun c => c.name == name := by
    funext c
    rw [Bool.eq_iff_iff, decide_eq_true_iff, List.mem_singleton, beq_iff_eq, eq_comm]
  have hlast : (r.contexts.reverse.map Context.name).Nodup := by
    rw [List.map_reverse, List.nodup_reverse]
    exact hs.names
  rw [context?, h.positions.getElem?, hname]
  refine Option.ext fun c => ?_
  rw [find?_iff_of_nodup hlast, List.mem_reverse, hs.context?_eq_some]

theorem InStep.server?_eq (h : r.InStep) (dn : String) : r.server? dn = r.session.server? dn := by
  have hserver : (fun c : Context => decide (dn ∈ c.topology.servers.map Server.dn)) =
      fun c => ((c.topology.server? dn).map (c, ·)).isSome := by
    funext c
    rw [Bool.eq_iff_iff, Option.isSome_map]
    simp [Topology.server?_eq_find?]
  rw [server?, Session.server?, findSome?_eq_find?_bind, ← hserver, ← Option.bind_assoc,
    h.servers.getElem?]

/-- The registry and the session of one list of declarations. -/
theorem built_follows (declarations : List ContextDeclaration) :
    (built declarations).Follows (Session.built declarations) := by
  obtain ⟨hstep, hsession⟩ := built_inStep declarations
  have hsound := Session.sound_built declarations
  refine ⟨hsession, hstep, fun name => ?_, fun dn => ?_, fun declared => ?_⟩
  · rw [hstep.context?_eq (hsession ▸ hsound), hsession]
  · rw [hstep.server?_eq, hsession]
  · rw [hstep.build_eq, hsession, Session.build]
    cases (Session.built declarations).newContext declared with
    | error e => rfl
    | ok c => exact congrArg (fun s : Session => Except.ok (s.add c)) hsession.symm

/-- The next declaration changes nothing, for the reason that comes first: its name or a group of it is
taken, or it cannot be built. Or else its context becomes the last one. The registry does as the session
does, its tables tell of all contexts, and these share neither their names nor a group. -/
theorem build_exact (hb : built declarations = r) (declared : ContextDeclaration) :
    ((∃ e, r.build declared = (.error e, r)) ∨
      ∃ c, Context.build declared = .ok c ∧ (r.build declared).1 = .ok c ∧
        (r.build declared).2.contexts = r.contexts ++ [c]) ∧
    (∀ e, (r.build declared).1 = .error e ↔ (declared.clashes r.contexts).head? = some e ∨
      declared.clashes r.contexts = [] ∧ Context.build declared = .error e) ∧
    r.contexts.Pairwise (fun c c' => c.topology.declared.Apart c'.topology.declared) ∧
    (∀ name c, r.context? name = some c ↔ c ∈ r.contexts ∧ c.name = name) ∧
    r.Follows (Session.built declarations) := by
  subst hb
  have hfollows := built_follows declarations
  have hsession : (built declarations).session = Session.built declarations := hfollows.session_eq
  have hsound : (built declarations).session.Sound := hsession ▸ Session.sound_built declarations
  refine ⟨?_, fun e => ?_, ?_, fun name c => ?_, hfollows⟩
  · rw [hfollows.inStep.build_eq]
    cases hc : (built declarations).session.newContext declared with
    | error e => exact Or.inl ⟨e, rfl⟩
    | ok c => exact Or.inr ⟨c, (hsound.newContext_ok hc).2, rfl, rfl⟩
  · rw [← hsound.newContext_error_iff, hfollows.inStep.build_eq]
    cases (built declarations).session.newContext declared with
    | error e' => simp
    | ok c => simp
  · rw [contexts, hsession]
    exact Session.built_apart declarations
  · rw [hfollows.inStep.context?_eq hsound, hsound.context?_eq_some]

/-- Of these the first and the last are built: the second takes the name of the first, and the third
cannot be built. -/
def mixedDeclarations : List ContextDeclaration :=
  [{ name := "a", placementGroups := .ofList [("g", ⟨"affinity"⟩)], servers := .ofList [("s", {})] },
    { name := "a" }, { name := "b", servers := .ofList [("s", { instances := 0 })] },
    { name := "c", serverGroups := .ofList [("g", ⟨"affinity"⟩)] }]

theorem build_exact_sample : ∃ r declared, built mixedDeclarations = r ∧
    r.contexts.map Context.name = ["a", "c"] ∧
    (r.build declared).1 = .error (.duplicate .serverGroup "g") ∧
    ((∃ e, r.build declared = (.error e, r)) ∨
      ∃ c, Context.build declared = .ok c ∧ (r.build declared).1 = .ok c ∧
        (r.build declared).2.contexts = r.contexts ++ [c]) ∧
    (∀ e, (r.build declared).1 = .error e ↔ (declared.clashes r.contexts).head? = some e ∨
      declared.clashes r.contexts = [] ∧ Context.build declared = .error e) ∧
    r.contexts.Pairwise (fun c c' => c.topology.declared.Apart c'.topology.declared) ∧
    (∀ name c, r.context? name = some c ↔ c ∈ r.contexts ∧ c.name = name) ∧
    r.Follows (Session.built mixedDeclarations) :=
  ⟨_, { name := "d", serverGroups := .ofList [("g", ⟨"affinity"⟩)] }, rfl, by decide +kernel,
    by decide +kernel, build_exact rfl _⟩

end Registry
end Provision
