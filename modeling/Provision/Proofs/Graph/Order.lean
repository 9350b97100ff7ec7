import Provision.Graph.Indexed
import Provision.Proofs.Layout.Resolution

/-! A graph is in order whatever calls it has seen: its names differ, its index tells where each resource
stands, and every dependency stands before what depends on it. A call that is refused changes nothing and
names the first thing that is wrong with it. -/
namespace Provision

/-! What a declaration is refused for, and where a resource stands. -/

namespace Graph
variable {g : Graph} {r : Resource} {e : GraphError}

theorem contains_eq_false_iff (g : Graph) (name : String) : g.contains name = false ↔ name ∉ g.names := by
  rw [← g.contains_iff name, Bool.not_eq_true]

/-- A declaration is refused for a name that is taken, or else for the first dependency that is missing. -/
theorem declare_error_iff : g.declare r = .error e ↔
    (r.name ∈ g.names ∧ e = .duplicateResource r.name) ∨
    (r.name ∉ g.names ∧ ∃ before d after, r.dependsOn = before ++ d :: after ∧ before ⊆ g.names ∧
      d ∉ g.names ∧ e = .missingDependency r.name d) := by
  by_cases hn : r.name ∈ g.names
  · simp [declare_of_taken hn, hn, eq_comm]
  · have hfind : ∀ d, (r.dependsOn.find? fun d => !g.contains d) = some d ↔
        ∃ before after, r.dependsOn = before ++ d :: after ∧ before ⊆ g.names ∧ d ∉ g.names := by
      intro d
      simp only [List.find?_eq_some_iff_append, Bool.not_eq_true', Bool.not_not, contains_iff,
        contains_eq_false_iff]
      exact ⟨fun ⟨hd, before, after, hs, hb⟩ => ⟨before, after, hs, fun a ha => hb a ha, hd⟩,
        fun ⟨before, after, hs, hb, hd⟩ => ⟨hd, before, after, hs, fun a ha => hb ha⟩⟩
    rw [declare, if_neg (mt (g.contains_iff r.name).mp hn)]
    simp only [hn, false_and, false_or, not_false_eq_true, true_and]
    constructor
    · intro h
      split at h
      · next d hd =>
        obtain ⟨before, after, hs, hb, hd⟩ := (hfind d).mp hd
        exact ⟨before, d, after, hs, hb, hd, (Except.error.inj h).symm⟩
      · cases h
    · rintro ⟨before, d, after, hs, hb, hd, rfl⟩
      rw [(hfind d).mpr ⟨before, after, hs, hb, hd⟩]

theorem position?_isSome (g : Graph) (name : String) :
    (g.position? name).isSome = true ↔ name ∈ g.names := by
  simp [position?, names]

theorem position?_eq_none (g : Graph) (name : String) : g.position? name = none ↔ name ∉ g.names := by
  rw [← g.position?_isSome name, Bool.not_eq_true, Option.isSome_eq_false_iff, Option.isNone_iff_eq_none]

/-- A resource that is declared anew stands at the end, and the others stay where they are. -/
theorem position?_append {more : List Resource} (hr : r.name ∉ g.names)
    (hmore : more = g.resources ++ [r]) (name : String) :
    ({ g with resources := more } : Graph).position? name =
      if name = r.name then some g.resources.length else g.position? name := by
  have hfree : g.resources.findIdx? (fun d => d.name == r.name) = none :=
    (g.position?_eq_none r.name).mpr hr
  simp only [position?, hmore, List.findIdx?_append]
  split
  · next h => simp [h, hfree]
  · next h => simp [Ne.symm h]

/-- With distinct names, the place of a name is the one where it stands. -/
theorem position?_eq_some (hn : g.names.Nodup) {name : String} {i : Nat} :
    g.position? name = some i ↔ g.names[i]? = some name := by
  rw [position?, List.findIdx?_eq_some_iff_getElem, names, List.getElem?_map]
  constructor
  · rintro ⟨hi, hname, -⟩
    rw [List.getElem?_eq_getElem hi]
    exact congrArg some (by simpa using hname)
  · intro h
    obtain ⟨r, hr, rfl⟩ := Option.map_eq_some_iff.mp h
    obtain ⟨hi, rfl⟩ := List.getElem?_eq_some_iff.mp hr
    refine ⟨hi, by simp, fun j hj hname => ?_⟩
    have hlength : g.names.length = g.resources.length := List.length_map _
    have hj' : j < g.names.length := hlength ▸ Nat.lt_trans hj hi
    have hi' : i < g.names.length := hlength ▸ hi
    have hsame : g.names[j] = g.names[i] := by simpa [names] using hname
    exact absurd (hn.getElem_inj_iff.mp hsame) (Nat.ne_of_lt hj)

end Graph

namespace IndexedGraph
variable {g : IndexedGraph} {r : Resource}

/-! One call. -/

/-- Names are taken once, dependencies stand before, and the index tells the place of every resource. -/
structure Sound (g : IndexedGraph) : Prop where
  names : g.names.Nodup
  grounded : Grounded [] g.resources
  places : ∀ name, g.places.find? name = g.graph.position? name

namespace Sound

theorem contains_eq (h : g.Sound) : g.contains = g.graph.contains := by
  funext name
  rw [Bool.eq_iff_iff, contains, SortedMap.contains_iff, ← SortedMap.find?_isSome, h.places,
    Graph.position?_isSome, Graph.contains_iff]

/-- A declaration is refused as the graph refuses it, and changes the graph as the graph is changed. -/
theorem declare_eq (h : g.Sound) (r : Resource) : g.declare r =
    match g.graph.declare r with
    | .error e => (.error e, g)
    | .ok graph => (.ok (), ⟨graph, g.places.insert r.name g.resources.length⟩) := by
  simp only [IndexedGraph.declare, Graph.declare, h.contains_eq]
  by_cases htaken : g.graph.contains r.name = true
  · rw [if_pos htaken, if_pos htaken]
  · rw [if_neg htaken, if_neg htaken]
    cases r.dependsOn.find? fun d => !g.graph.contains d <;> rfl

theorem declare_ok (h : g.Sound) (hr : (g.declare r).1 = .ok ()) : r.name ∉ g.names ∧
    r.dependsOn ⊆ g.names ∧ (g.declare r).2 = ⟨{ g.graph with resources := g.resources ++ [r] },
      g.places.insert r.name g.resources.length⟩ := by
  rw [h.declare_eq] at hr ⊢
  cases hd : g.graph.declare r with
  | error e =>
    rw [hd] at hr
    cases hr
  | ok graph =>
    obtain ⟨hn, hdeps, rfl⟩ := Graph.declare_ok hd
    exact ⟨hn, hdeps, rfl⟩

theorem declare_error (h : g.Sound) {e : GraphError} (hr : (g.declare r).1 = .error e) :
    (g.declare r).2 = g := by
  rw [h.declare_eq] at hr ⊢
  cases hd : g.graph.declare r with
  | error e => rfl
  | ok graph =>
    rw [hd] at hr
    cases hr

theorem declare (h : g.Sound) (r : Resource) : (g.declare r).2.Sound := by
  cases hr : (g.declare r).1 with
  | error e =>
    rw [h.declare_error hr]
    exact h
  | ok =>
    obtain ⟨hn, hdeps, hg⟩ := h.declare_ok hr
    rw [hg]
    refine ⟨?_, ?_, fun name => ?_⟩
    · rw [IndexedGraph.names, Graph.names, List.map_append]
      refine List.nodup_append.mpr ⟨h.names, by simp, fun a ha b hb => ?_⟩
      rintro rfl
      exact hn (List.mem_singleton.mp hb ▸ ha)
    · exact h.grounded.append ⟨by simpa [Graph.names] using hdeps, trivial⟩
    · rw [SortedMap.find?_insert, Graph.position?_append hn rfl, h.places]

theorem report (h : g.Sound) (name : String) (output : Output) : (g.report name output).Sound :=
  ⟨h.names, h.grounded, h.places⟩

end Sound

/-! Calls one after another. -/

/-- What a graph is asked to do. -/
inductive Call
  | declare (resource : Resource)
  | report (name : String) (output : Output)

/-- Does what is asked, or nothing if it is refused. -/
def perform (g : IndexedGraph) : Call → IndexedGraph
  | .declare r => (g.declare r).2
  | .report name output => g.report name output

def run (g : IndexedGraph) (calls : List Call) : IndexedGraph := calls.foldl perform g

/-- One of the calls declares a resource of that name, and is accepted where it stands. -/
def Accepts (g : IndexedGraph) (calls : List Call) (name : String) : Prop :=
  ∃ before r after, calls = before ++ .declare r :: after ∧ r.name = name ∧
    ((g.run before).declare r).1 = .ok ()

theorem Sound.perform (h : g.Sound) (call : Call) : (g.perform call).Sound := by
  cases call with
  | declare r => exact h.declare r
  | report name output => exact h.report name output

theorem Sound.run (h : g.Sound) (calls : List Call) : (g.run calls).Sound := by
  induction calls generalizing g with
  | nil => exact h
  | cons call rest ih => exact ih (h.perform call)

theorem sound_empty (description : String) : (empty description).Sound :=
  ⟨.nil, trivial, fun _ => rfl⟩

theorem Sound.mem_names_perform (h : g.Sound) (call : Call) (name : String) :
    name ∈ (g.perform call).names ↔ name ∈ g.names ∨
      ∃ r, call = .declare r ∧ r.name = name ∧ (g.declare r).1 = .ok () := by
  cases call with
  | report name' output => simp [IndexedGraph.perform, IndexedGraph.report, Graph.report, Graph.names]
  | declare r =>
    cases hr : (g.declare r).1 with
    | error e => simp [IndexedGraph.perform, h.declare_error hr, hr]
    | ok =>
      obtain ⟨-, -, hg⟩ := h.declare_ok hr
      simp [IndexedGraph.perform, hg, hr, Graph.names, eq_comm]

/-- The names of a graph are those that were accepted. -/
theorem Sound.mem_names_run (h : g.Sound) (calls : List Call) (name : String) :
    name ∈ (g.run calls).names ↔ name ∈ g.names ∨ g.Accepts calls name := by
  induction calls generalizing g with
  | nil => simp [IndexedGraph.run, Accepts]
  | cons call rest ih =>
    change name ∈ ((g.perform call).run rest).names ↔ _
    rw [ih (h.perform call), h.mem_names_perform, or_assoc]
    refine or_congr_right ⟨?_, ?_⟩
    · rintro (⟨r, rfl, hname, hr⟩ | ⟨before, r, after, rfl, hname, hr⟩)
      · exact ⟨[], r, rest, rfl, hname, hr⟩
      · exact ⟨call :: before, r, after, rfl, hname, hr⟩
    · rintro ⟨before, r, after, hs, hname, hr⟩
      rcases List.cons_eq_append_iff.mp hs with ⟨rfl, hs⟩ | ⟨before, rfl, rfl⟩
      · cases hs
        exact Or.inl ⟨r, rfl, hname, hr⟩
      · exact Or.inr ⟨before, r, after, rfl, hname, hr⟩

/-! The order of a graph. -/

/-- The names, the places and the dependencies of a graph fit together. -/
structure InOrder (g : IndexedGraph) : Prop where
  names : g.names.Nodup
  position? : ∀ name i, g.position? name = some i ↔ g.names[i]? = some name
  /-- The resource of a name is the one that stands at its place. -/
  find? : ∀ name i, g.position? name = some i →
    ∃ r, g.resources[i]? = some r ∧ r.name = name ∧ g.find? name = some r
  /-- So the order of declaration is an order of creation. -/
  dependencies : ∀ i r, g.resources[i]? = some r → ∀ d ∈ r.dependsOn, ∃ j < i, g.position? d = some j
  acyclic : ∀ r ∈ g.resources, ¬ Relation.TransGen g.graph.DependsOn r r

/-- Whatever is read off the index, and whatever comes of a declaration, is as it is without an index. -/
structure Follows (g : IndexedGraph) : Prop where
  contains : ∀ name, g.contains name = g.graph.contains name
  position? : ∀ name, g.position? name = g.graph.position? name
  find? : ∀ name, g.find? name = g.graph.find? name
  declare : ∀ r, g.graph.declare r = (g.declare r).1.map fun _ => (g.declare r).2.graph

namespace Sound

theorem position?_eq_some (h : g.Sound) {name : String} {i : Nat} :
    g.position? name = some i ↔ g.names[i]? = some name := by
  rw [IndexedGraph.position?, h.places, Graph.position?_eq_some h.names]

theorem find?_of_position (h : g.Sound) {name : String} {i : Nat} (hi : g.position? name = some i) :
    ∃ r, g.resources[i]? = some r ∧ r.name = name ∧ g.find? name = some r := by
  have hname := h.position?_eq_some.mp hi
  rw [IndexedGraph.names, Graph.names, List.getElem?_map] at hname
  obtain ⟨r, hr, rfl⟩ := Option.map_eq_some_iff.mp hname
  refine ⟨r, hr, rfl, ?_⟩
  rw [IndexedGraph.find?, show g.places.find? r.name = some i from hi]
  exact hr

theorem position?_of_mem (h : g.Sound) {name : String} (hn : name ∈ g.names) :
    ∃ i, g.position? name = some i := by
  obtain ⟨i, hi⟩ := List.getElem?_of_mem hn
  exact ⟨i, h.position?_eq_some.mpr hi⟩

theorem position?_eq_none_iff (h : g.Sound) (name : String) :
    g.position? name = none ↔ name ∉ g.names := by
  rw [IndexedGraph.position?, h.places, Graph.position?_eq_none]

theorem find?_eq_none_iff (h : g.Sound) (name : String) : g.find? name = none ↔ name ∉ g.names := by
  rw [← h.position?_eq_none_iff name]
  cases hi : g.position? name with
  | none => simp [IndexedGraph.find?, show g.places.find? name = none from hi]
  | some i =>
    obtain ⟨r, -, -, hr⟩ := h.find?_of_position hi
    simp [hr]

theorem dependency_earlier (h : g.Sound) {i : Nat} (hr : g.resources[i]? = some r) {d : String}
    (hd : d ∈ r.dependsOn) : ∃ j < i, g.position? d = some j := by
  obtain ⟨hi, rfl⟩ := List.getElem?_eq_some_iff.mp hr
  have hs : g.resources = g.resources.take i ++ g.resources[i] :: g.resources.drop (i + 1) := by simp
  obtain ⟨earlier, hm, rfl⟩ := h.grounded.exists_earlier hs hd
  obtain ⟨j, hj⟩ := List.getElem?_of_mem hm
  have hji : j < i := by
    have := (List.getElem?_eq_some_iff.mp hj).1
    simp at this
    omega
  refine ⟨j, hji, h.position?_eq_some.mpr ?_⟩
  rw [List.getElem?_take_of_lt hji] at hj
  simp [Graph.names, hj]

/-- Along the edges of dependency the place goes down. -/
theorem position_lt (h : g.Sound) {d : Resource} (hr : r ∈ g.resources)
    (hd : Relation.TransGen g.graph.DependsOn r d) : d ∈ g.resources ∧ ∀ i j,
      g.position? r.name = some i → g.position? d.name = some j → j < i := by
  have hstep : ∀ r ∈ g.resources, ∀ d, g.graph.DependsOn r d → ∀ i j,
      g.position? r.name = some i → g.position? d.name = some j → j < i := by
    rintro r hr d ⟨-, hd⟩ i j hi hj
    obtain ⟨i', hi'⟩ := List.getElem?_of_mem hr
    have hplace : g.position? r.name = some i' :=
      h.position?_eq_some.mpr (by simp [Graph.names, hi'])
    obtain ⟨j', hlt, hj'⟩ := h.dependency_earlier hi' hd
    rw [hi] at hplace
    rw [hj] at hj'
    cases hplace
    cases hj'
    exact hlt
  induction hd with
  | single hd => exact ⟨hd.1, hstep r hr _ hd⟩
  | @tail m d _ hd ih =>
    refine ⟨hd.1, fun i k hi hk => ?_⟩
    obtain ⟨j, hj⟩ := h.position?_of_mem (List.mem_map_of_mem ih.1)
    exact Nat.lt_trans (hstep m ih.1 d hd j k hj hk) (ih.2 i j hi hj)

theorem inOrder (h : g.Sound) : g.InOrder where
  names := h.names
  position? _ _ := h.position?_eq_some
  find? _ _ := h.find?_of_position
  dependencies _ _ hr _ hd := h.dependency_earlier hr hd
  acyclic r hr hcycle := by
    obtain ⟨i, hi⟩ := h.position?_of_mem (List.mem_map_of_mem hr)
    exact Nat.lt_irrefl i ((h.position_lt hr hcycle).2 i i hi hi)

theorem follows (h : g.Sound) : g.Follows where
  contains name := congrFun h.contains_eq name
  position? := h.places
  find? name := by
    cases hi : g.position? name with
    | none =>
      have hn := (h.position?_eq_none_iff name).mp hi
      rw [(h.find?_eq_none_iff name).mpr hn, eq_comm, Graph.find?, List.find?_eq_none]
      rintro r hr hname
      exact hn (List.mem_map.mpr ⟨r, hr, by simpa using hname⟩)
    | some i =>
      obtain ⟨r, hr, hname, hfound⟩ := h.find?_of_position hi
      rw [hfound, eq_comm, Graph.find?, find?_iff_of_nodup h.names]
      exact ⟨List.mem_of_getElem? hr, hname⟩
  declare r := by
    rw [h.declare_eq]
    cases g.graph.declare r <;> rfl

end Sound

/-- After any calls, accepted or refused, a graph is in order, and it finds the names that were accepted and
no others. The next declaration is refused if its name is taken, or else for its first dependency that is
missing, and one that is refused changes nothing. All of this is as it is in the graph without an index. -/
theorem run_in_order (description : String) (calls : List Call) :
    ((empty description).run calls).InOrder ∧
    (∀ name, (((empty description).run calls).position? name = none ↔
        ¬ (empty description).Accepts calls name) ∧
      (((empty description).run calls).find? name = none ↔ ¬ (empty description).Accepts calls name)) ∧
    (∀ r e, (((empty description).run calls).declare r).1 = .error e ↔
      (r.name ∈ ((empty description).run calls).names ∧ e = .duplicateResource r.name) ∨
      (r.name ∉ ((empty description).run calls).names ∧ ∃ before d after,
        r.dependsOn = before ++ d :: after ∧ before ⊆ ((empty description).run calls).names ∧
          d ∉ ((empty description).run calls).names ∧ e = .missingDependency r.name d)) ∧
    (∀ r e, (((empty description).run calls).declare r).1 = .error e →
      (((empty description).run calls).declare r).2 = (empty description).run calls) ∧
    ((empty description).run calls).Follows := by
  have hsound := (sound_empty description).run calls
  have hnames : ∀ name, name ∈ ((empty description).run calls).names ↔
      (empty description).Accepts calls name := fun name => by
    rw [(sound_empty description).mem_names_run]
    exact or_iff_right List.not_mem_nil
  refine ⟨hsound.inOrder, fun name => ⟨?_, ?_⟩, fun r e => ?_, fun r e => hsound.declare_error,
    hsound.follows⟩
  · rw [hsound.position?_eq_none_iff, hnames]
  · rw [hsound.find?_eq_none_iff, hnames]
  · rw [← Graph.declare_error_iff, hsound.declare_eq]
    cases ((empty description).run calls).graph.declare r <;> simp

/-- A resource, one that depends on nothing known, one that takes its name, and an output. -/
example : ((empty "").run [.declare ⟨"a", .network, .obj [], []⟩,
    .declare ⟨"b", .port, .obj [], ["a", "c"]⟩, .declare ⟨"a", .port, .obj [], []⟩, .report "a" ⟨"", .null⟩,
    .declare ⟨"b", .port, .obj [], ["a"]⟩]).names = ["a", "b"] := by decide

end IndexedGraph
end Provision
