import Provision.Topology.Group
import Provision.Topology.Server

/-! A topology: the networks, groups and servers of one context, all references resolved. A topology
is built in one pass over its declaration, and the first rule that is broken is the error. -/
namespace Provision

structure Topology where
  declared : ContextDeclaration
  networks : List Network
  placementGroups : List PlacementGroup
  serverGroups : List ServerGroup
  servers : List Server
  deriving DecidableEq

namespace Topology

def name (t : Topology) : String := t.declared.name
def user (t : Topology) : String := t.declared.user.getD defaultUser
def keypair (t : Topology) : String := keypairName t.name
def securityGroup (t : Topology) : String := securityGroupName t.name

def network? (t : Topology) (name : String) : Option Network :=
  t.networks.find? fun n => n.name == name

def placementGroup? (t : Topology) (name : String) : Option PlacementGroup :=
  t.placementGroups.find? fun g => g.name == name

def serverGroup? (t : Topology) (name : String) : Option ServerGroup :=
  t.serverGroups.find? fun g => g.name == name

/-- The positions of the servers, by distinguished name. -/
def serverIndex (t : Topology) : SortedMap Nat :=
  .ofList (t.servers.zipIdx.map fun e => (e.1.dn, e.2))

/-- The server of a distinguished name; of two the one declared later. -/
def server? (t : Topology) (dn : String) : Option Server :=
  (t.serverIndex.find? dn).bind fun i => t.servers[i]?

def firstExternal? (t : Topology) : Option String := Provision.firstExternal? t.networks

/-- The group of that name gets a member; `none` if there is no such group. -/
def join? {π : Type} (group member : String) : List (Group π) → Option (List (Group π))
  | [] => none
  | g :: gs =>
    if g.name = group then some (g.addMember member :: gs)
    else (join? group member gs).map (g :: ·)

/-- Enters a server into the placement groups it names. -/
def joinPlacement (server : Server) (groups : List PlacementGroup) :
    Except TopologyError (List PlacementGroup) :=
  server.placementGroups.foldlM (fun gs name =>
    match join? name server.resourceName gs with
    | some gs => .ok gs
    | none => .error (.unknownPlacementGroup server.dn name)) groups

/-- Enters a server into the server group it names. -/
def joinServerGroup (server : Server) (groups : List ServerGroup) :
    Except TopologyError (List ServerGroup) :=
  match server.serverGroup with
  | none => .ok groups
  | some name =>
    match join? name server.resourceName groups with
    | some gs => .ok gs
    | none => .error (.unknownServerGroup server.dn name)

/-- Server groups and networks share the names that begin with the context. -/
def checkGroupNames (groups : List ServerGroup) (networks : List Network) :
    Except TopologyError Unit :=
  let taken := networks.flatMap Network.resourceNames
  match groups.find? fun g => taken.contains g.resourceName with
  | some g => .error (.duplicate .resourceName g.resourceName)
  | none => .ok ()

/-- Adds one declared server: the server itself, then its placement groups, then its server group. -/
def addServer (t : Topology) (name : String) (declared : ServerDeclaration) :
    Except TopologyError Topology := do
  let defaults : ServerDefaults :=
    ⟨t.name, t.declared.image, t.declared.flavor, t.declared.user⟩
  let server ← Server.build defaults t.networks name declared
  let placementGroups ← joinPlacement server t.placementGroups
  let serverGroups ← joinServerGroup server t.serverGroups
  return { t with placementGroups, serverGroups, servers := t.servers ++ [server] }

/-- Builds the topology that is declared: the name, placement groups, server groups, networks, clashes
of names, and servers, in this order. -/
def build (declared : ContextDeclaration) : Except TopologyError Topology := do
  let context := declared.name
  if context = "" then throw .emptyContextName
  let placementGroups ← buildGroups PlacementPolicy.read context declared.placementGroups
  let serverGroups ← buildGroups ServerGroupPolicy.read context declared.serverGroups
  let networks ← declared.networks.entries.mapM fun e => Network.build context e.1 e.2
  checkGroupNames serverGroups networks
  declared.servers.entries.foldlM (fun t e => t.addServer e.1 e.2)
    { declared, networks, placementGroups, serverGroups, servers := [] }

end Topology
end Provision
