import Provision.Declaration.Types
import Provision.Json.Value

/-! Declarations as JSON values: every field in its place, `null` for an option that is absent. -/
namespace Provision

namespace Json

/-- An optional value. -/
def option {α : Type} (write : α → Json) : Option α → Json
  | some a => write a
  | none => null

def strings (names : List String) : Json := arr (names.map str)

def unsigned (n : Nat) : Json := int n

def members {α : Type} (write : α → Json) (entries : List (String × α)) : Json :=
  obj (entries.map fun e => (e.1, write e.2))

end Json

open Json

def NameList.toJson : NameList → Json
  | one name => str name
  | many names => strings names

def InlineFlavor.toJson (f : InlineFlavor) : Json :=
  obj [("name", option str f.name),
    ("vcpus", unsigned f.vcpus.toNat),
    ("ram", unsigned f.ram.toNat),
    ("disk", unsigned f.disk.toNat),
    ("extra_specs", members str f.extraSpecs.entries)]

def Flavor.toJson : Flavor → Json
  | named name => str name
  | inline flavor => flavor.toJson

def Volume.toJson : Volume → Json
  | existing id => str id
  | inline size => obj [("size", unsigned size.toNat)]

def GroupDeclaration.toJson (g : GroupDeclaration) : Json := obj [("policy", str g.policy)]

/-- An absent hardware address is left out. -/
def AddressPair.toJson (p : AddressPair) : Json :=
  obj (("ip_address", str p.ipAddress) ::
    match p.macAddress with
    | some mac => [("mac_address", str mac)]
    | none => [])

def NetworkDeclaration.toJson (n : NetworkDeclaration) : Json :=
  obj [("cidr", str n.cidr),
    ("external_network", option str n.externalNetwork),
    ("provider", option str n.provider),
    ("physical_network", option str n.physicalNetwork),
    ("segmentation_id", option (fun id => unsigned id.toNat) n.segmentationId),
    ("network_type", option str n.networkType),
    ("port_security_enabled", option bool n.portSecurity),
    ("vnic_type", str n.vnicType),
    ("allowed_address_pairs", arr (n.allowedAddressPairs.map AddressPair.toJson)),
    ("enable_dhcp", bool n.enableDhcp),
    ("gateway_ip", option str n.gatewayIp)]

def ServerDeclaration.toJson (s : ServerDeclaration) : Json :=
  obj [("image", option str s.image),
    ("flavor", option Flavor.toJson s.flavor),
    ("user", option str s.user),
    ("instances", unsigned s.instances.toNat),
    ("floating_ip", bool s.floatingIp),
    ("placement", option NameList.toJson s.placement),
    ("server_group", option str s.serverGroup),
    ("networks", option strings s.networks),
    ("volume", option Volume.toJson s.volume),
    ("volume_mountpoint", option str s.volumeMountpoint),
    ("availability_zone", option str s.availabilityZone),
    ("user_data", option str s.userData)]

def ContextDeclaration.toJson (c : ContextDeclaration) : Json :=
  obj [("name", str c.name),
    ("image", option str c.image),
    ("flavor", option Flavor.toJson c.flavor),
    ("user", option str c.user),
    ("public_key", option str c.publicKey),
    ("timeout", unsigned c.timeout.toNat),
    ("parameters", members str c.parameters.entries),
    ("placement_groups", members GroupDeclaration.toJson c.placementGroups.entries),
    ("server_groups", members GroupDeclaration.toJson c.serverGroups.entries),
    ("networks", members NetworkDeclaration.toJson c.networks.entries),
    ("servers", members ServerDeclaration.toJson c.servers.entries)]

end Provision
