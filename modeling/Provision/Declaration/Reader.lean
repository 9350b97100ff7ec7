import Provision.Declaration.Types
import Provision.Json.Fields

/-! Declarations from JSON. Fields with more than one form (`flavor`, `volume`, `placement`) are looked
at as whole values, so all of such a value must fit into the room that is left, parts that no form asks
for included. Other members that are no field are skipped unread. -/
namespace Provision

open Json

def NameList.read (room : Nat) (x : Json) : Option NameList :=
  if x.fits room = true then
    match x.string? with
    | some name => some (one name)
    | none => (list? string? x).map many
  else none

def InlineFlavor.read (x : Json) : Option InlineFlavor :=
  match x.fields? ["name", "vcpus", "ram", "disk", "extra_specs"] with
  | some [name, vcpus, ram, disk, extraSpecs] => do
    return {
      name := ← optional string? name
      vcpus := ← withDefault 1 uint32? vcpus
      ram := ← withDefault 1024 uint32? ram
      disk := ← withDefault 1 uint32? disk
      extraSpecs := ← withDefault ∅ (sortedMap? string?) extraSpecs }
  | _ => none

def Flavor.read (room : Nat) (x : Json) : Option Flavor :=
  if x.fits room = true then
    match x.string? with
    | some name => some (named name)
    | none => (InlineFlavor.read x).map inline
  else none

/-- A volume to be made is an object, never an array. -/
def Volume.read (room : Nat) (x : Json) : Option Volume :=
  if x.fits room = true then
    match x with
    | str id => some (existing id)
    | obj _ =>
      match x.fields? ["size"] with
      | some [size] => (required uint32? size).map inline
      | _ => none
    | _ => none
  else none

def GroupDeclaration.read (x : Json) : Option GroupDeclaration :=
  match x.fields? ["policy"] with
  | some [policy] => (required string? policy).map GroupDeclaration.mk
  | _ => none

def AddressPair.read (x : Json) : Option AddressPair :=
  match x.fields? ["ip_address", "mac_address"] with
  | some [ipAddress, macAddress] => do
    return {
      ipAddress := ← required string? ipAddress
      macAddress := ← optional string? macAddress }
  | _ => none

def NetworkDeclaration.read (x : Json) : Option NetworkDeclaration :=
  match x.fields? ["cidr", "external_network", "provider", "physical_network", "segmentation_id",
    "network_type", "port_security_enabled", "vnic_type", "allowed_address_pairs", "enable_dhcp",
    "gateway_ip"] with
  | some [cidr, externalNetwork, provider, physicalNetwork, segmentationId, networkType,
      portSecurity, vnicType, allowedAddressPairs, enableDhcp, gatewayIp] => do
    return {
      cidr := ← withDefault "10.0.1.0/24" string? cidr
      externalNetwork := ← optional string? externalNetwork
      provider := ← optional string? provider
      physicalNetwork := ← optional string? physicalNetwork
      segmentationId := ← optional uint32? segmentationId
      networkType := ← optional string? networkType
      portSecurity := ← optional bool? portSecurity
      vnicType := ← withDefault "normal" string? vnicType
      allowedAddressPairs := ← withDefault [] (list? AddressPair.read) allowedAddressPairs
      enableDhcp := ← withDefault true bool? enableDhcp
      gatewayIp := ← optional string? gatewayIp }
  | _ => none

/-- A server that stands inside `127 - room` arrays and objects. -/
def ServerDeclaration.read (room : Nat) (x : Json) : Option ServerDeclaration :=
  match x.fields? ["image", "flavor", "user", "instances", "floating_ip", "placement",
    "server_group", "networks", "volume", "volume_mountpoint", "availability_zone",
    "user_data"] with
  | some [image, flavor, user, instances, floatingIp, placement, serverGroup, networks, volume,
      volumeMountpoint, availabilityZone, userData] => do
    return {
      image := ← optional string? image
      flavor := ← optional (Flavor.read (room - 1)) flavor
      user := ← optional string? user
      instances := ← withDefault 1 uint32? instances
      floatingIp := ← withDefault false bool? floatingIp
      placement := ← optional (NameList.read (room - 1)) placement
      serverGroup := ← optional string? serverGroup
      networks := ← optional (list? string?) networks
      volume := ← optional (Volume.read (room - 1)) volume
      volumeMountpoint := ← optional string? volumeMountpoint
      availabilityZone := ← optional string? availabilityZone
      userData := ← optional string? userData }
  | _ => none

def ContextDeclaration.read (room : Nat) (x : Json) : Option ContextDeclaration :=
  match x.fields? ["name", "image", "flavor", "user", "public_key", "timeout", "parameters",
    "placement_groups", "server_groups", "networks", "servers"] with
  | some [name, image, flavor, user, publicKey, timeout, parameters, placementGroups, serverGroups,
      networks, servers] => do
    return {
      name := ← required string? name
      image := ← optional string? image
      flavor := ← optional (Flavor.read (room - 1)) flavor
      user := ← optional string? user
      publicKey := ← optional string? publicKey
      timeout := ← withDefault 3600 uint64? timeout
      parameters := ← withDefault ∅ (sortedMap? string?) parameters
      placementGroups := ← withDefault ∅ (orderedMap? GroupDeclaration.read) placementGroups
      serverGroups := ← withDefault ∅ (orderedMap? GroupDeclaration.read) serverGroups
      networks := ← withDefault ∅ (orderedMap? NetworkDeclaration.read) networks
      servers := ← withDefault ∅ (orderedMap? (ServerDeclaration.read (room - 2))) servers }
  | _ => none

/-- A file of topologies is a list of contexts or a single one, and is looked at as a whole. -/
def readFile (text : String) : Option (List ContextDeclaration) := do
  let x ← Json.parse? text
  if x.fits maxDepth = true then
    match list? (ContextDeclaration.read maxDepth) x with
    | some contexts => some contexts
    | none => (ContextDeclaration.read maxDepth x).map ([·])
  else none

end Provision
