import Provision.SortedMap
import Provision.Declaration.Types
import Provision.Topology.Error

/-! Groups of servers. A placement group becomes scheduler hints and a server group a resource of its
own, so each kind has its own policies. -/
namespace Provision

inductive PlacementPolicy
  | availability
  | affinity
  deriving DecidableEq

inductive ServerGroupPolicy
  | affinity
  | antiAffinity
  deriving DecidableEq

namespace PlacementPolicy

def name : PlacementPolicy → String
  | availability => "availability"
  | affinity => "affinity"

def read (text : String) : Except TopologyError PlacementPolicy :=
  if text = "availability" then .ok availability
  else if text = "affinity" then .ok affinity
  else .error (.invalidPolicy .placement text)

end PlacementPolicy

namespace ServerGroupPolicy

def name : ServerGroupPolicy → String
  | affinity => "affinity"
  | antiAffinity => "anti-affinity"

def read (text : String) : Except TopologyError ServerGroupPolicy :=
  if text = "affinity" then .ok affinity
  else if text = "anti-affinity" then .ok antiAffinity
  else .error (.invalidPolicy .server text)

end ServerGroupPolicy

/-- A named group with the resource names of the servers that belong to it. -/
structure Group (π : Type) where
  name : String
  context : String
  policy : π
  members : NameSet := ∅
  deriving DecidableEq

abbrev PlacementGroup := Group PlacementPolicy
abbrev ServerGroup := Group ServerGroupPolicy

namespace Group
variable {π : Type}

/-- The name of the resource that a group becomes. -/
def resourceName (g : Group π) : String := g.context ++ "-" ++ g.name

def addMember (g : Group π) (server : String) : Group π :=
  { g with members := g.members.insert server () }

def hasMember (g : Group π) (server : String) : Bool := g.members.contains server

end Group

/-- Builds the declared groups in order; the first bad policy is the error. -/
def buildGroups {π : Type} (read : String → Except TopologyError π) (context : String)
    (groups : OrderedMap GroupDeclaration) : Except TopologyError (List (Group π)) :=
  groups.entries.mapM fun e => do
    let policy ← read e.2.policy
    return { name := e.1, context, policy }

end Provision
