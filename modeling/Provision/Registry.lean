import Provision.Session

/-! A session with its indexes: tables from the names that are taken to the contexts that took them. A
session looks through its contexts to answer what a registry reads off its tables. -/
namespace Provision

structure Registry where
  session : Session := {}
  /-- The positions of contexts, by name. -/
  positions : SortedMap Nat := ∅
  /-- The names of contexts, by the placement groups they declare. -/
  placementGroups : SortedMap String := ∅
  /-- The names of contexts, by the server groups they declare. -/
  serverGroups : SortedMap String := ∅
  /-- The positions of contexts, by the distinguished names of their servers. -/
  servers : SortedMap Nat := ∅

namespace Registry

abbrev contexts (r : Registry) : List Context := r.session.contexts

/-- The first name that is taken already: of the context, of a placement group, of a server group. -/
def takenName? (r : Registry) (declared : ContextDeclaration) : Option TopologyError :=
  if r.positions.contains declared.name then some (.duplicate .context declared.name)
  else match declared.placementGroups.keys.find? r.placementGroups.contains with
    | some group => some (.duplicate .placementGroup group)
    | none =>
      (declared.serverGroups.keys.find? r.serverGroups.contains).map (.duplicate .serverGroup ·)

/-- Adds a context as the last and enters all of its names. -/
def add (r : Registry) (c : Context) : Registry where
  session := r.session.add c
  positions := r.positions.insert c.name r.contexts.length
  placementGroups := r.placementGroups.insertAll (c.topology.placementGroups.map Group.name) c.name
  serverGroups := r.serverGroups.insertAll (c.topology.serverGroups.map Group.name) c.name
  servers := r.servers.insertAll (c.topology.servers.map Server.dn) r.contexts.length

/-- Builds a context and adds it, unless one of its names is taken. -/
def build (r : Registry) (declared : ContextDeclaration) : Except TopologyError Context × Registry :=
  match r.takenName? declared with
  | some e => (.error e, r)
  | none =>
    match Context.build declared with
    | .error e => (.error e, r)
    | .ok c => (.ok c, r.add c)

def context? (r : Registry) (name : String) : Option Context :=
  (r.positions.find? name).bind fun i => r.contexts[i]?

def server? (r : Registry) (dn : String) : Option (Context × Server) :=
  (r.servers.find? dn).bind fun i => r.contexts[i]?.bind fun c => (c.topology.server? dn).map (c, ·)

end Registry
end Provision
