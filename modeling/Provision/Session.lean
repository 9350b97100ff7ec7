import Provision.Context

/-! A session: all contexts that were built one after another. The names of contexts and of groups are
taken once in a session, and servers are found by distinguished name across all contexts. -/
namespace Provision

structure Session where
  contexts : List Context := []

/-- How to reach a server. -/
structure ServerInfo where
  user : String
  keypair : String
  privateIp : Option String
  publicIp : Option String
  interfaces : SortedMap Interface
  deriving DecidableEq

/-- How to reach a server of the context. -/
def Context.infoOf (c : Context) (server : Server) : ServerInfo :=
  let known := c.addressesOf server
  { user := server.user
    keypair := keypairName server.context
    privateIp := known.privateIp
    publicIp := known.publicIp
    interfaces := known.interfaces }

namespace Session

def context? (s : Session) (name : String) : Option Context :=
  s.contexts.find? fun c => c.name == name

/-- The placement groups of all contexts. -/
def placementGroups (s : Session) : List String :=
  s.contexts.flatMap fun c => c.topology.placementGroups.map Group.name

/-- The server groups of all contexts. -/
def serverGroups (s : Session) : List String :=
  s.contexts.flatMap fun c => c.topology.serverGroups.map Group.name

/-- The first name that is taken already: of the context, of a placement group, of a server group. -/
def takenName? (s : Session) (declared : ContextDeclaration) : Option TopologyError :=
  if (s.context? declared.name).isSome then some (.duplicate .context declared.name)
  else match declared.placementGroups.keys.find? s.placementGroups.contains with
    | some group => some (.duplicate .placementGroup group)
    | none =>
      (declared.serverGroups.keys.find? s.serverGroups.contains).map (.duplicate .serverGroup ·)

/-- The context that a declaration asks for, if the session has its names free. -/
def newContext (s : Session) (declared : ContextDeclaration) : Except TopologyError Context :=
  match s.takenName? declared with
  | some e => .error e
  | none => Context.build declared

def add (s : Session) (c : Context) : Session := ⟨s.contexts ++ [c]⟩

/-- Builds a context and adds it as the last. A declaration that is refused adds nothing. -/
def build (s : Session) (declared : ContextDeclaration) : Except TopologyError Session :=
  (s.newContext declared).map s.add

/-- The server of a distinguished name, in the context that was built last of those that have one. -/
def server? (s : Session) (dn : String) : Option (Context × Server) :=
  s.contexts.reverse.findSome? fun c => (c.topology.server? dn).map (c, ·)

def serverInfo? (s : Session) (dn : String) : Option ServerInfo :=
  (s.server? dn).map fun (c, server) => c.infoOf server

/-- All servers, each with its context. -/
def servers (s : Session) : List (Context × Server) :=
  s.contexts.flatMap fun c => c.topology.servers.map (c, ·)

/-- Puts a context in the place of the one that has its name. -/
def replace (s : Session) (c : Context) : Session :=
  ⟨s.contexts.map fun old => if old.name = c.name then c else old⟩

end Session
end Provision
