import Provision.Address.Cidr
import Provision.Declaration.Types
import Provision.Topology.Error

/-! Networks with their subnet and, where an external network is declared, a router. The names of
their resources all begin with the context and the network. -/
namespace Provision

/-- The tag of a segment in a provider's network; 0 and 4095 are reserved. -/
structure SegmentationId where
  value : UInt32
  inRange : 1 ≤ value.toNat ∧ value.toNat ≤ 4094
  deriving DecidableEq

def SegmentationId.ofId (id : UInt32) : Except TopologyError SegmentationId :=
  if h : 1 ≤ id.toNat ∧ id.toNat ≤ 4094 then .ok ⟨id, h⟩
  else .error (.invalidSegmentationId id)

/-- The router of a network, the way to an external network. -/
structure Router where
  network : String
  context : String
  externalNetwork : String
  deriving DecidableEq

namespace Router

def name (r : Router) : String := r.network ++ "-router"
def resourceName (r : Router) : String := r.context ++ "-" ++ r.network ++ "-router"
def interfaceName (r : Router) : String := r.resourceName ++ "-if0"
def dn (r : Router) : String := r.name ++ "." ++ r.context

end Router

/-- A network whose segmentation id and subnet have been checked. -/
structure Network where
  name : String
  context : String
  declared : NetworkDeclaration
  segmentationId : Option SegmentationId
  cidr : Cidr
  deriving DecidableEq

namespace Network

def resourceName (n : Network) : String := n.context ++ "-" ++ n.name
def subnetName (n : Network) : String := n.resourceName ++ "-subnet"

/-- The distinguished name. -/
def dn (n : Network) : String := n.name ++ "." ++ n.context

def router? (n : Network) : Option Router :=
  n.declared.externalNetwork.map fun external => ⟨n.name, n.context, external⟩

/-- A network on a provider's physical segment. -/
def isProvider (n : Network) : Bool :=
  n.declared.provider.isSome || n.declared.physicalNetwork.isSome

def hasRouteTo (n : Network) (external : String) : Bool :=
  n.declared.externalNetwork == some external

/-- The names of all resources of the network. -/
def resourceNames (n : Network) : List String :=
  [n.resourceName, n.subnetName] ++
    match n.router? with
    | some r => [r.resourceName, r.interfaceName]
    | none => []

/-- Checks the segmentation id before the subnet. -/
def build (context name : String) (declared : NetworkDeclaration) :
    Except TopologyError Network := do
  let segmentationId ← declared.segmentationId.mapM SegmentationId.ofId
  match Cidr.read? declared.cidr with
  | some cidr => return { name, context, declared, segmentationId, cidr }
  | none => throw (.invalidCidr declared.cidr)

end Network

/-- The external network of the first network that has one. -/
def firstExternal? (networks : List Network) : Option String :=
  networks.findSome? fun n => n.declared.externalNetwork

end Provision
