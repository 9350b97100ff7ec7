import Provision.Graph.Resource
import Provision.Topology.Basic

/-! Scheduler hints: the servers to share a host with, those to keep apart from, and the server group
to join. They name only servers that have been placed already. -/
namespace Provision

structure Hints where
  /-- Absent as long as no affinity group has been looked at. -/
  sameHost : Option (List String) := none
  /-- Absent as long as no availability group has been looked at. -/
  differentHost : Option (List String) := none
  group : Option String := none
  deriving DecidableEq

namespace Hints

def near (h : Hints) : List String := h.sameHost.getD []
def apart (h : Hints) : List String := h.differentHost.getD []

def isEmpty (h : Hints) : Bool := h.near.isEmpty && h.apart.isEmpty && h.group.isNone

/-- The resources that the hints name. -/
def referenced (h : Hints) : List String := h.near ++ h.apart ++ h.group.toList

/-- Adds the members of the group that have been placed, in the order of placement, to the list that
the group's policy speaks of. -/
def assign (h : Hints) (placed : List String) (g : PlacementGroup) : Hints :=
  let peers := placed.filter g.hasMember
  match g.policy with
  | .affinity => { h with sameHost := some (h.near ++ peers) }
  | .availability => { h with differentHost := some (h.apart ++ peers) }

/-- The value of the hints as a property; an empty list is left out. -/
def toJson (h : Hints) : Json :=
  let refs (key : String) (names : List String) : List (String × Json) :=
    if names = [] then [] else [(key, .arr (names.map resourceRef))]
  .obj (refs "same_host" h.near ++ refs "different_host" h.apart ++
    match h.group with
    | some g => [("group", resourceRef g)]
    | none => [])

/-- The hints of a server, given the resource names of the servers placed before it. -/
def forServer (t : Topology) (placed : List String) (s : Server) : Hints :=
  let groups := s.placementGroups.filterMap t.placementGroup?
  let hosts : Hints := groups.foldl (fun h g => h.assign placed g) {}
  { hosts with group := (s.serverGroup.bind t.serverGroup?).map Group.resourceName }

end Hints
end Provision
