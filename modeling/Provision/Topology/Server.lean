import Provision.Topology.Network

/-! Servers. A server stands for one or more instances: the first has the server's own resource name,
and each other one adds its number. -/
namespace Provision

/-- Where a server's floating addresses come from, and the attached network that reaches it. -/
structure FloatingIp where
  externalNetwork : String
  network : String
  deriving DecidableEq

/-- A server with what it takes over from its context. -/
structure Server where
  name : String
  context : String
  declared : ServerDeclaration
  user : String
  image : Option String
  flavor : Option Flavor
  /-- The names of the networks it is attached to. -/
  networks : List String
  floatingIp : Option FloatingIp
  deriving DecidableEq

/-- What servers take over from their context. -/
structure ServerDefaults where
  context : String
  image : Option String
  flavor : Option Flavor
  user : Option String

/-- The user that logs in where none is named. -/
def defaultUser : String := "ubuntu"

/-- The device of a volume where none is named. -/
def defaultMountpoint : String := "/dev/vdb"

def keypairName (context : String) : String := context ++ "-key"
def securityGroupName (context : String) : String := context ++ "-secgroup"

namespace Server

/-- The distinguished name, which is also the name of the first instance. -/
def dn (s : Server) : String := s.name ++ "." ++ s.context

def resourceName (s : Server) : String := s.dn

def instanceName (s : Server) (i : Nat) : String :=
  if i = 0 then s.resourceName else s.resourceName ++ "-" ++ toString i

def instances (s : Server) : Nat := s.declared.instances.toNat

def instanceNames (s : Server) : List String := (List.range s.instances).map s.instanceName

def placementGroups (s : Server) : List String :=
  match s.declared.placement with
  | some names => names.toList
  | none => []

def serverGroup (s : Server) : Option String := s.declared.serverGroup

def flavorName (s : Server) : String := s.resourceName ++ "-flavor"

def mountpoint (s : Server) : String := s.declared.volumeMountpoint.getD defaultMountpoint

/-- The networks of the list that the server is attached to, in the server's order. -/
def attached (s : Server) (networks : List Network) : List Network :=
  s.networks.filterMap fun name => networks.find? fun n => n.name == name

end Server

/-- The name of the port of an instance on a network. -/
def portName (instanceName network : String) : String := instanceName ++ "-" ++ network ++ "-port"

def floatingIpName (instanceName : String) : String := instanceName ++ "-fip"
def associationName (instanceName : String) : String := instanceName ++ "-fip-assoc"
def volumeName (instanceName : String) : String := instanceName ++ "-volume"
def attachmentName (instanceName : String) : String := instanceName ++ "-volume-attachment"

namespace Server

/-- The name on record for the floating address, which is that of the first instance. -/
def floatingIpName? (s : Server) : Option String :=
  s.floatingIp.map fun _ => floatingIpName s.resourceName

/-- The name on record for the association of the floating address. -/
def associationName? (s : Server) : Option String :=
  s.floatingIp.map fun _ => associationName s.resourceName

end Server

/-- The names of the networks a server is attached to, all of them declared. -/
def attachedNames (dn : String) (networks : List Network) :
    Option (List String) → Except TopologyError (List String)
  | none => .ok (networks.map Network.name)
  | some names =>
    match names.find? fun name => !(networks.any fun n => n.name == name) with
    | some unknown => .error (.unknownNetwork dn unknown)
    | none => .ok names

/-- The floating address of a server: the first attached network that routes to the external network
of the context. -/
def floatingIpFor (dn context : String) (networks : List Network) (attached : List String) :
    Except TopologyError FloatingIp :=
  match firstExternal? networks with
  | none => .error (.noExternalNetwork dn context)
  | some external =>
    let reached := attached.filterMap fun name => networks.find? fun n => n.name == name
    match reached.find? fun n => n.hasRouteTo external with
    | some n => .ok ⟨external, n.name⟩
    | none => .error (.noRouteToExternal dn external)

/-- Checks the number of instances, then the networks, then the floating address. -/
def Server.build (defaults : ServerDefaults) (networks : List Network) (name : String)
    (declared : ServerDeclaration) : Except TopologyError Server := do
  let dn := name ++ "." ++ defaults.context
  if declared.instances = 0 then throw (.noInstances dn)
  let attached ← attachedNames dn networks declared.networks
  let floatingIp ←
    if declared.floatingIp = true then
      some <$> floatingIpFor dn defaults.context networks attached
    else pure none
  return {
    name, declared, floatingIp
    context := defaults.context
    user := (declared.user <|> defaults.user).getD defaultUser
    image := declared.image <|> defaults.image
    flavor := declared.flavor <|> defaults.flavor
    networks := attached }

end Provision
