import Provision.Graph.Template
import Provision.Proofs.Graph.Order
import Provision.Proofs.OrderedMap

/-! The template of a graph tells the graph. A template is made of tables, and an empty list of dependencies
is left out of it, so this takes type names that differ, and names that are taken once. -/
namespace Provision

theorem ResourceKind.typeName_injective : Function.Injective typeName := by
  intro a b h
  cases a <;> cases b <;> first | rfl | simp [typeName] at h

namespace Resource
variable {r s : Resource}

/-- The dependencies of a template that leaves out the empty list. -/
theorem dependsOn_eq {ds es : List String}
    (h : (if ds = [] then [] else [("depends_on", Json.arr (ds.map .str))]) =
      if es = [] then [] else [("depends_on", Json.arr (es.map .str))]) : ds = es := by
  by_cases hd : ds = [] <;> by_cases he : es = []
  · rw [hd, he]
  · simp [hd, he] at h
  · simp [hd, he] at h
  · have hstr : Function.Injective Json.str := fun _ _ => Json.str.inj
    exact hstr.list_map (by simpa [hd, he] using h)

theorem template_inj (hname : r.name = s.name) (h : r.template = s.template) : r = s := by
  obtain ⟨name, kind, properties, ds⟩ := r
  obtain ⟨name', kind', properties', es⟩ := s
  obtain rfl : name = name' := hname
  simp only [template, List.cons_append, List.nil_append, Json.obj.injEq, List.cons.injEq,
    Prod.mk.injEq, Json.str.injEq, true_and] at h
  obtain ⟨hkind, rfl, hdependencies⟩ := h
  rw [ResourceKind.typeName_injective hkind, dependsOn_eq hdependencies]

end Resource

theorem Output.template_injective : Function.Injective template := by
  rintro ⟨description, value⟩ ⟨description', value'⟩ h
  simpa [template] using h

namespace Graph
variable {g h : Graph}

/-- With distinct names a template has every resource in its place. -/
theorem template_eq (hg : g.names.Nodup) : g.template =
    .obj [("heat_template_version", .str templateVersion), ("description", .str g.description),
      ("resources", .obj (g.resources.map fun r => (r.name, r.template))),
      ("outputs", .obj (g.outputs.entries.map fun e => (e.1, e.2.template)))] := by
  have hresources : ((g.resources.map fun r => (r.name, r.template)).map Prod.fst).Nodup := by
    rw [List.map_map]
    exact hg
  have houtputs : ((g.outputs.entries.map fun e => (e.1, e.2.template)).map Prod.fst).Nodup := by
    rw [List.map_map]
    exact g.outputs.keys_nodup
  rw [template, OrderedMap.entries_ofList hresources, OrderedMap.entries_ofList houtputs]

theorem template_inj (hg : g.names.Nodup) (hh : h.names.Nodup) (ht : g.template = h.template) : g = h := by
  simp only [template_eq hg, template_eq hh, Json.obj.injEq, List.cons.injEq, Prod.mk.injEq,
    Json.str.injEq, true_and, and_true] at ht
  obtain ⟨hdescription, hresources, houtputs⟩ := ht
  have hpair : Function.Injective fun r : Resource => (r.name, r.template) := fun r s hrs =>
    Resource.template_inj (Prod.mk.inj hrs).1 (Prod.mk.inj hrs).2
  have hentry : Function.Injective fun e : String × Output => (e.1, e.2.template) := fun d e hde =>
    Prod.ext (Prod.mk.inj hde).1 (Output.template_injective (Prod.mk.inj hde).2)
  obtain ⟨description, resources, outputs⟩ := g
  obtain ⟨description', resources', outputs'⟩ := h
  obtain rfl : description = description' := hdescription
  obtain rfl : resources = resources' := hpair.list_map hresources
  obtain rfl : outputs = outputs' := SortedMap.ext (hentry.list_map houtputs)
  rfl

end Graph

namespace IndexedGraph
variable {g h : IndexedGraph}

/-- The index of a graph follows from its resources. -/
theorem Sound.eq_of_graph_eq (hg : g.Sound) (hh : h.Sound) (heq : g.graph = h.graph) : g = h := by
  have hplaces : g.places = h.places := SortedMap.ext_find? fun name => by
    rw [hg.places, hh.places, heq]
  obtain ⟨graph, places⟩ := g
  obtain rfl : graph = _ := heq
  obtain rfl : places = _ := hplaces
  rfl

/-- Two graphs that are made by any calls, accepted or refused, have one template only if they are the same
graph: one description, the same resources in one order, and the same outputs. -/
theorem template_run_inj (description description' : String) (calls calls' : List Call) :
    ((empty description).run calls).graph.template = ((empty description').run calls').graph.template ↔
      (empty description).run calls = (empty description').run calls' := by
  constructor
  · intro htemplate
    have hg := (sound_empty description).run calls
    have hh := (sound_empty description').run calls'
    exact hg.eq_of_graph_eq hh (Graph.template_inj hg.names hh.names htemplate)
  · intro h
    rw [h]

end IndexedGraph

/-- Of two resources that took one name a template would not show the first. -/
example : ({ resources := [⟨"a", .network, .null, []⟩, ⟨"a", .port, .null, []⟩] } : Graph).template =
    ({ resources := [⟨"a", .port, .null, []⟩] } : Graph).template := by rfl

end Provision
