import Provision.Graph.Basic
import Provision.OrderedMap

/-! The template of a graph: a document with the resources in the order of declaration and the
outputs in the order of their names. Both are entered under their names, so of two resources with one name
only the later one would be left. -/
namespace Provision

/-- The version of the template format. -/
def templateVersion : String := "2013-05-23"

def Resource.template (r : Resource) : Json :=
  .obj ([("type", .str r.kind.typeName), ("properties", r.properties)] ++
    if r.dependsOn = [] then [] else [("depends_on", .arr (r.dependsOn.map .str))])

def Output.template (o : Output) : Json :=
  .obj [("description", .str o.description), ("value", o.value)]

def Graph.template (g : Graph) : Json :=
  .obj [("heat_template_version", .str templateVersion),
    ("description", .str g.description),
    ("resources", .obj (OrderedMap.ofList (g.resources.map fun r => (r.name, r.template))).entries),
    ("outputs", .obj (OrderedMap.ofList (g.outputs.entries.map fun e => (e.1, e.2.template))).entries)]

end Provision
