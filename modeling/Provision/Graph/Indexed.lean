import Provision.Graph.Basic

/-! A graph with an index of its resources. A graph looks through its resources to answer what is read off
the index here. A declaration that is refused hands the graph back as it was. -/
namespace Provision

structure IndexedGraph where
  graph : Graph
  /-- The places of resources in the order of declaration, by name. -/
  places : SortedMap Nat := ∅

namespace IndexedGraph

abbrev resources (g : IndexedGraph) : List Resource := g.graph.resources

abbrev names (g : IndexedGraph) : List String := g.graph.names

def empty (description : String) : IndexedGraph := { graph := .empty description }

def contains (g : IndexedGraph) (name : String) : Bool := g.places.contains name

def position? (g : IndexedGraph) (name : String) : Option Nat := g.places.find? name

def find? (g : IndexedGraph) (name : String) : Option Resource :=
  (g.places.find? name).bind fun i => g.resources[i]?

/-- Declares a resource as the last one. A name that is taken is found before a dependency that is
missing. -/
def declare (g : IndexedGraph) (r : Resource) : Except GraphError Unit × IndexedGraph :=
  if g.contains r.name = true then (.error (.duplicateResource r.name), g)
  else match r.dependsOn.find? fun d => !g.contains d with
    | some d => (.error (.missingDependency r.name d), g)
    | none =>
      (.ok (), { graph := { g.graph with resources := g.resources ++ [r] }
                 places := g.places.insert r.name g.resources.length })

def report (g : IndexedGraph) (name : String) (output : Output) : IndexedGraph :=
  { g with graph := g.graph.report name output }

end IndexedGraph
end Provision
