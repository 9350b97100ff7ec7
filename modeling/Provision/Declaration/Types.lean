import Provision.OrderedMap
import Provision.SortedMap

/-! What a topology is asked to be. The declarations hold what was written, with the defaults filled
in; whether it makes sense is decided when the topology is built. -/
namespace Provision

/-- A number of names, or one that stands alone. -/
inductive NameList
  | one (name : String)
  | many (names : List String)
  deriving DecidableEq

def NameList.toList : NameList → List String
  | one name => [name]
  | many names => names

/-- A flavor made for one server. Memory is in megabytes and the disk in gigabytes. -/
structure InlineFlavor where
  name : Option String := none
  vcpus : UInt32 := 1
  ram : UInt32 := 1024
  disk : UInt32 := 1
  extraSpecs : SortedMap String := ∅
  deriving DecidableEq

inductive Flavor
  | named (name : String)
  | inline (flavor : InlineFlavor)
  deriving DecidableEq

/-- A volume that exists, or one to be made, of a size in gigabytes. -/
inductive Volume
  | existing (id : String)
  | inline (size : UInt32)
  deriving DecidableEq

structure GroupDeclaration where
  policy : String
  deriving DecidableEq

/-- An address that a port lets through besides its own. -/
structure AddressPair where
  ipAddress : String
  macAddress : Option String := none
  deriving DecidableEq

structure NetworkDeclaration where
  cidr : String := "10.0.1.0/24"
  /-- A network with an external network has a router to it. -/
  externalNetwork : Option String := none
  provider : Option String := none
  physicalNetwork : Option String := none
  segmentationId : Option UInt32 := none
  networkType : Option String := none
  portSecurity : Option Bool := none
  vnicType : String := "normal"
  allowedAddressPairs : List AddressPair := []
  enableDhcp : Bool := true
  /-- The text `null` stands for a subnet without a gateway. -/
  gatewayIp : Option String := none
  deriving DecidableEq

structure ServerDeclaration where
  image : Option String := none
  flavor : Option Flavor := none
  user : Option String := none
  instances : UInt32 := 1
  floatingIp : Bool := false
  placement : Option NameList := none
  serverGroup : Option String := none
  /-- A server without a list is attached to every network. -/
  networks : Option (List String) := none
  volume : Option Volume := none
  volumeMountpoint : Option String := none
  availabilityZone : Option String := none
  userData : Option String := none
  deriving DecidableEq

structure ContextDeclaration where
  name : String
  image : Option String := none
  flavor : Option Flavor := none
  user : Option String := none
  publicKey : Option String := none
  /-- In seconds. -/
  timeout : UInt64 := 3600
  parameters : SortedMap String := ∅
  placementGroups : OrderedMap GroupDeclaration := ∅
  serverGroups : OrderedMap GroupDeclaration := ∅
  networks : OrderedMap NetworkDeclaration := ∅
  servers : OrderedMap ServerDeclaration := ∅
  deriving DecidableEq

end Provision
