import Provision.Layout.Step

/-! What a run of steps does to a graph: to its resources and to its outputs. A run is refused only for a
name that is taken, as long as every resource depends on nothing but what stands before it. -/
namespace Provision

/-- The resource that a step declares, if it declares one. -/
def Step.resource? : Step → Option Resource
  | .declare r => some r
  | _ => none

/-- The resources that the steps declare, in their order. -/
def resourcesOf (steps : List Step) : List Resource := steps.filterMap Step.resource?

@[simp] theorem resourcesOf_nil : resourcesOf [] = [] := rfl

@[simp] theorem resourcesOf_declare (r : Resource) (steps : List Step) :
    resourcesOf (.declare r :: steps) = r :: resourcesOf steps := rfl

@[simp] theorem resourcesOf_report (name : String) (output : Output) (steps : List Step) :
    resourcesOf (.report name output :: steps) = resourcesOf steps := rfl

@[simp] theorem resourcesOf_clearPorts (server : String) (steps : List Step) :
    resourcesOf (.clearPorts server :: steps) = resourcesOf steps := rfl

@[simp] theorem resourcesOf_notePort (server network port : String) (steps : List Step) :
    resourcesOf (.notePort server network port :: steps) = resourcesOf steps := rfl

@[simp] theorem resourcesOf_append (a b : List Step) :
    resourcesOf (a ++ b) = resourcesOf a ++ resourcesOf b := by
  simp [resourcesOf]

@[simp] theorem resourcesOf_flatMap {α : Type} (f : α → List Step) (as : List α) :
    resourcesOf (as.flatMap f) = as.flatMap fun a => resourcesOf (f a) := by
  induction as with
  | nil => rfl
  | cons a as ih => simp [ih]

/-- The output that a step asks for, if it asks for one. -/
def Step.request? : Step → Option (String × Output)
  | .report name output => some (name, output)
  | _ => none

/-- The outputs that the steps ask for, in their order. -/
def requestsOf (steps : List Step) : List (String × Output) := steps.filterMap Step.request?

@[simp] theorem requestsOf_nil : requestsOf [] = [] := rfl

@[simp] theorem requestsOf_declare (r : Resource) (steps : List Step) :
    requestsOf (.declare r :: steps) = requestsOf steps := rfl

@[simp] theorem requestsOf_report (name : String) (output : Output) (steps : List Step) :
    requestsOf (.report name output :: steps) = (name, output) :: requestsOf steps := rfl

@[simp] theorem requestsOf_clearPorts (server : String) (steps : List Step) :
    requestsOf (.clearPorts server :: steps) = requestsOf steps := rfl

@[simp] theorem requestsOf_notePort (server network port : String) (steps : List Step) :
    requestsOf (.notePort server network port :: steps) = requestsOf steps := rfl

@[simp] theorem requestsOf_append (a b : List Step) :
    requestsOf (a ++ b) = requestsOf a ++ requestsOf b := by
  simp [requestsOf]

theorem mem_requestsOf {steps : List Step} {e : String × Output} :
    e ∈ requestsOf steps ↔ .report e.1 e.2 ∈ steps := by
  rw [requestsOf, List.mem_filterMap]
  constructor
  · rintro ⟨s, hs, he⟩
    cases s with
    | report name output =>
      cases he
      exact hs
    | _ => cases he
  · exact fun h => ⟨_, h, rfl⟩

/-- Every resource depends only on names that are known or declared before it. -/
def Grounded (known : List String) : List Resource → Prop
  | [] => True
  | r :: rest => r.dependsOn ⊆ known ∧ Grounded (known ++ [r.name]) rest

namespace Grounded
variable {known more : List String} {as bs : List Resource}

@[simp] theorem nil : Grounded known [] := trivial

theorem mono (h : Grounded known as) (hm : known ⊆ more) : Grounded more as := by
  induction as generalizing known more with
  | nil => trivial
  | cons r rest ih =>
    refine ⟨List.Subset.trans h.1 hm, ih h.2 ?_⟩
    exact List.append_subset.mpr
      ⟨List.subset_append_of_subset_left _ hm, List.subset_append_right _ _⟩

theorem append (ha : Grounded known as) (hb : Grounded (known ++ as.map Resource.name) bs) :
    Grounded known (as ++ bs) := by
  induction as generalizing known with
  | nil => simpa using hb
  | cons r rest ih => exact ⟨ha.1, ih ha.2 (by simpa using hb)⟩

/-- Parts that need nothing of each other. -/
theorem flatMap {α : Type} {f : α → List Resource} {xs : List α}
    (h : ∀ x ∈ xs, Grounded known (f x)) : Grounded known (xs.flatMap f) := by
  induction xs with
  | nil => trivial
  | cons x xs ih =>
    rw [List.flatMap_cons]
    refine append (h x List.mem_cons_self) (mono (ih fun y hy => h y (List.mem_cons_of_mem _ hy)) ?_)
    exact List.subset_append_left _ _

theorem of_independent (h : ∀ r ∈ as, r.dependsOn = []) : Grounded known as := by
  induction as generalizing known with
  | nil => trivial
  | cons r rest ih =>
    exact ⟨by simp [h r], ih fun r hr => h r (List.mem_cons_of_mem _ hr)⟩

theorem dependsOn_subset {r : Resource} (h : Grounded known (as ++ r :: bs)) :
    r.dependsOn ⊆ known ++ as.map Resource.name := by
  induction as generalizing known with
  | nil => simpa using h.1
  | cons a rest ih => simpa using ih h.2

end Grounded

/-- Names either are all different from each other and from those known, or one of them is the first
that came before. -/
theorem nodup_or_firstRepeat {known : List String} (hk : known.Nodup) (names : List String) :
    (known ++ names).Nodup ∨
      ∃ before name after, names = before ++ name :: after ∧ (known ++ before).Nodup ∧
        name ∈ known ++ before := by
  induction names generalizing known with
  | nil => exact Or.inl (by simpa using hk)
  | cons name rest ih =>
    by_cases hn : name ∈ known
    · exact Or.inr ⟨[], name, rest, rfl, by simpa using hk, by simpa using hn⟩
    · have hk' : (known ++ [name]).Nodup := by
        refine List.nodup_append.mpr ⟨hk, by simp, fun a ha b hb => ?_⟩
        rintro rfl
        exact hn (List.mem_singleton.mp hb ▸ ha)
      rcases ih hk' with h | ⟨before, x, after, rfl, hb, hx⟩
      · exact Or.inl (by simpa using h)
      · exact Or.inr ⟨name :: before, x, after, rfl, by simpa using hb, by simpa using hx⟩

namespace Graph

theorem contains_iff (g : Graph) (name : String) : g.contains name = true ↔ name ∈ g.names := by
  simp [contains, names]

theorem declare_of_taken {g : Graph} {r : Resource} (h : r.name ∈ g.names) :
    g.declare r = .error (.duplicateResource r.name) := by
  rw [declare, if_pos ((g.contains_iff r.name).mpr h)]

theorem declare_of_free {g : Graph} {r : Resource} (h : r.name ∉ g.names)
    (hd : r.dependsOn ⊆ g.names) : g.declare r = .ok { g with resources := g.resources ++ [r] } := by
  have hnone : r.dependsOn.find? (fun d => !g.contains d) = none := by
    rw [List.find?_eq_none]
    intro d hm
    simpa using (g.contains_iff d).mpr (hd hm)
  rw [declare, if_neg (mt (g.contains_iff r.name).mp h), hnone]

/-- What an accepted declaration says: the name was free, and what it depends on was there. -/
theorem declare_ok {g g' : Graph} {r : Resource} (h : g.declare r = .ok g') :
    r.name ∉ g.names ∧ r.dependsOn ⊆ g.names ∧ g' = { g with resources := g.resources ++ [r] } := by
  by_cases hn : r.name ∈ g.names
  · rw [declare_of_taken hn] at h
    cases h
  · rw [declare, if_neg (mt (g.contains_iff r.name).mp hn)] at h
    split at h
    · cases h
    · next hnone =>
      refine ⟨hn, fun d hd => (g.contains_iff d).mp ?_, (Except.ok.inj h).symm⟩
      simpa using List.find?_eq_none.mp hnone d hd

end Graph

namespace Progress
variable {p q : Progress} {steps : List Step}

theorem step_ok {s : Step} (h : p.step s = .ok q) :
    q.graph.resources = p.graph.resources ++ s.resource?.toList ∧
      q.graph.description = p.graph.description := by
  cases s with
  | declare r =>
    simp only [step] at h
    split at h
    · next g hg =>
      obtain ⟨-, -, rfl⟩ := Graph.declare_ok hg
      cases h
      exact ⟨rfl, rfl⟩
    · cases h
  | report name output => cases h; simp [Graph.report, Step.resource?]
  | clearPorts server => cases h; simp [Step.resource?]
  | notePort server network port => cases h; simp [Step.resource?]

/-- A run that is carried out adds the resources it declares, in their order. -/
theorem resources_of_run (h : p.run steps = (q, none)) :
    q.graph.resources = p.graph.resources ++ resourcesOf steps := by
  induction steps generalizing p with
  | nil => cases h; simp
  | cons s rest ih =>
    simp only [run] at h
    split at h
    · next p' hs =>
      rw [ih h, (step_ok hs).1, List.append_assoc]
      congr 1
      cases s <;> rfl
    · cases h

theorem outputs_of_step {s : Step} (h : p.step s = .ok q) : q.graph.outputs =
    s.request?.toList.foldl (fun m e => m.insert e.1 e.2) p.graph.outputs := by
  cases s with
  | declare r =>
    simp only [step] at h
    split at h
    · next g hg =>
      obtain ⟨-, -, rfl⟩ := Graph.declare_ok hg
      cases h
      rfl
    · cases h
  | report name output =>
    cases h
    rfl
  | clearPorts server =>
    cases h
    rfl
  | notePort server network port =>
    cases h
    rfl

/-- A run that is carried out adds the outputs it is asked for, one after another. -/
theorem outputs_of_run (h : p.run steps = (q, none)) : q.graph.outputs =
    (requestsOf steps).foldl (fun m e => m.insert e.1 e.2) p.graph.outputs := by
  induction steps generalizing p with
  | nil =>
    cases h
    rfl
  | cons s rest ih =>
    simp only [run] at h
    split at h
    · next p' hs =>
      rw [ih h, outputs_of_step hs, ← List.foldl_append]
      cases s <;> rfl
    · cases h

/-- With free names and all dependencies in place nothing is refused. -/
theorem run_of_nodup (hg : Grounded p.graph.names (resourcesOf steps))
    (hn : (p.graph.names ++ (resourcesOf steps).map Resource.name).Nodup) :
    ∃ q, p.run steps = (q, none) := by
  induction steps generalizing p with
  | nil => exact ⟨p, rfl⟩
  | cons s rest ih =>
    cases s with
    | declare r =>
      rw [resourcesOf_declare] at hg hn
      have hfree : r.name ∉ p.graph.names := fun hm =>
        (List.nodup_append.mp hn).2.2 r.name hm r.name List.mem_cons_self rfl
      simp only [run, step, Graph.declare_of_free hfree hg.1]
      refine ih ?_ ?_
      · simpa [Graph.names] using hg.2
      · simpa [Graph.names] using hn
    | report name output => exact ih hg hn
    | clearPorts server => exact ih hg hn
    | notePort server network port => exact ih hg hn

/-- With all dependencies in place a run ends at the first name that came before. -/
theorem run_of_repeat {before after : List Resource} {r : Resource}
    (hs : resourcesOf steps = before ++ r :: after) (hg : Grounded p.graph.names (resourcesOf steps))
    (hn : (p.graph.names ++ before.map Resource.name).Nodup)
    (hr : r.name ∈ p.graph.names ++ before.map Resource.name) :
    ∃ q, p.run steps = (q, some (.duplicateResource r.name)) := by
  induction steps generalizing p before with
  | nil => cases before <;> cases hs
  | cons s rest ih =>
    cases s with
    | declare d =>
      rw [resourcesOf_declare] at hs hg
      cases before with
      | nil =>
        obtain ⟨rfl, -⟩ := List.cons.inj hs
        refine ⟨p, ?_⟩
        simp only [run, step, Graph.declare_of_taken (by simpa using hr : d.name ∈ p.graph.names)]
      | cons b before =>
        obtain ⟨rfl, htail⟩ := List.cons.inj hs
        have hfree : d.name ∉ p.graph.names := fun hm =>
          (List.nodup_append.mp hn).2.2 d.name hm d.name List.mem_cons_self rfl
        simp only [run, step, Graph.declare_of_free hfree hg.1]
        refine ih htail ?_ ?_ ?_
        · simpa [Graph.names] using hg.2
        · simpa [Graph.names] using hn
        · simpa [Graph.names] using hr
    | report name output => exact ih hs hg hn hr
    | clearPorts server => exact ih hs hg hn hr
    | notePort server network port => exact ih hs hg hn hr

end Progress
end Provision
