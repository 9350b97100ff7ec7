import Provision.Graph.Resource
import Provision.SortedMap

/-! A graph of resources. A name is taken once, and a resource is declared after all that it depends
on, so the order of declaration is an order of creation. -/
namespace Provision

inductive GraphError
  | duplicateResource (name : String)
  | missingDependency (resource dependency : String)
  deriving DecidableEq

def GraphError.message : GraphError → String
  | duplicateResource name => "resource '" ++ name ++ "' already exists in the graph"
  | missingDependency resource dependency =>
    "resource '" ++ resource ++ "' depends on '" ++ dependency ++ "' which is not in the graph"

structure Graph where
  description : String := ""
  resources : List Resource := []
  outputs : SortedMap Output := ∅

namespace Graph

def empty (description : String) : Graph := { description }

def names (g : Graph) : List String := g.resources.map Resource.name

def contains (g : Graph) (name : String) : Bool := g.resources.any fun r => r.name == name

def find? (g : Graph) (name : String) : Option Resource :=
  g.resources.find? fun r => r.name == name

/-- The place of a resource in the order of declaration. -/
def position? (g : Graph) (name : String) : Option Nat :=
  g.resources.findIdx? fun r => r.name == name

def ofKind (g : Graph) (kind : ResourceKind) : List Resource :=
  g.resources.filter fun r => r.kind = kind

def size (g : Graph) : Nat := g.resources.length
def isEmpty (g : Graph) : Bool := g.resources.isEmpty

/-- Declares a resource. A name that is taken is found before a dependency that is missing. -/
def declare (g : Graph) (r : Resource) : Except GraphError Graph :=
  if g.contains r.name = true then .error (.duplicateResource r.name)
  else match r.dependsOn.find? fun d => !g.contains d with
    | some d => .error (.missingDependency r.name d)
    | none => .ok { g with resources := g.resources ++ [r] }

/-- Asks for an output; the later of two with one name counts. -/
def report (g : Graph) (name : String) (output : Output) : Graph :=
  { g with outputs := g.outputs.insert name output }

/-- The same description, resources and outputs. -/
def same (g h : Graph) : Bool :=
  g.description == h.description && g.resources == h.resources
    && g.outputs.entries == h.outputs.entries

end Graph
end Provision
