import Provision.Layout.Step
import Provision.Topology.Network

/-! The resources of a network: the network, its subnet, and where it has one its router with the
interface that joins router and subnet. -/
namespace Provision.Network

open Json

/-- The properties that make a network part of a provider's segment or a plain one. -/
def segmentProperties (n : Network) : List (String × Json) :=
  if n.isProvider then
    [("physical_network", str (n.declared.physicalNetwork.getD "physnet1")),
      ("network_type", str (n.declared.networkType.getD "vlan"))] ++
    match n.segmentationId with
    | some id => [("segmentation_id", int id.value.toNat)]
    | none => []
  else
    match n.declared.networkType with
    | some type => [("value_specs", obj [("provider:network_type", str type)])]
    | none => []

def resource (n : Network) : Resource where
  name := n.resourceName
  kind := if n.isProvider then .providerNetwork else .network
  properties := obj (("name", str n.resourceName) :: n.segmentProperties ++
    match n.declared.portSecurity with
    | some enabled => [("port_security_enabled", bool enabled)]
    | none => [])

/-- The gateway, where one is declared; the text `null` asks for none. -/
def gatewayProperty (n : Network) : List (String × Json) :=
  match n.declared.gatewayIp with
  | some gateway => [("gateway_ip", if gateway = "null" then null else str gateway)]
  | none => []

def subnet (n : Network) : Resource where
  name := n.subnetName
  kind := .subnet
  properties := obj ([("name", str n.subnetName),
    ("network_id", resourceRef n.resourceName),
    ("cidr", str n.cidr.text),
    ("ip_version", int (if n.cidr.isV6 then 6 else 4)),
    ("enable_dhcp", bool n.declared.enableDhcp)] ++ n.gatewayProperty)
  dependsOn := [n.resourceName]

def routerResource (n : Network) (r : Router) : Resource where
  name := r.resourceName
  kind := .router
  properties := obj [("name", str r.resourceName),
    ("external_gateway_info", obj [("network", str r.externalNetwork)])]
  dependsOn := [n.subnetName]

def interfaceResource (n : Network) (r : Router) : Resource where
  name := r.interfaceName
  kind := .routerInterface
  properties := obj [("router_id", resourceRef r.resourceName),
    ("subnet_id", resourceRef n.subnetName)]
  dependsOn := [r.resourceName, n.subnetName]

def routerSteps (n : Network) (r : Router) : List Step :=
  [.declare (n.routerResource r),
    .declare (n.interfaceResource r),
    .report (r.resourceName ++ "-id")
      ⟨"ID of router " ++ r.resourceName, resourceRef r.resourceName⟩]

def steps (n : Network) : List Step :=
  [.declare n.resource,
    .report (n.resourceName ++ "-id")
      ⟨"ID of network " ++ n.name, resourceRef n.resourceName⟩,
    .declare n.subnet,
    .report (n.subnetName ++ "-cidr")
      ⟨"CIDR of subnet " ++ n.subnetName, attributeRef n.subnetName [str "cidr"]⟩,
    .report (n.subnetName ++ "-gateway_ip")
      ⟨"Gateway of subnet " ++ n.subnetName, attributeRef n.subnetName [str "gateway_ip"]⟩] ++
  match n.router? with
  | some r => n.routerSteps r
  | none => []

end Provision.Network
