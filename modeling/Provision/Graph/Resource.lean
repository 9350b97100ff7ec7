import Provision.Json.Value

/-! The resources of a graph: their kinds with the names a template uses for them, and the two
expressions by which one resource refers to another. -/
namespace Provision

inductive ResourceKind
  | keyPair | securityGroup | serverGroup
  | network | providerNetwork | subnet | router | routerInterface
  | port | floatingIp | floatingIpAssociation
  | server | flavor | volume | volumeAttachment
  deriving DecidableEq

/-- The type name of the kind in a template. -/
def ResourceKind.typeName : ResourceKind → String
  | keyPair => "OS::Nova::KeyPair"
  | securityGroup => "OS::Neutron::SecurityGroup"
  | serverGroup => "OS::Nova::ServerGroup"
  | network => "OS::Neutron::Net"
  | providerNetwork => "OS::Neutron::ProviderNet"
  | subnet => "OS::Neutron::Subnet"
  | router => "OS::Neutron::Router"
  | routerInterface => "OS::Neutron::RouterInterface"
  | port => "OS::Neutron::Port"
  | floatingIp => "OS::Neutron::FloatingIP"
  | floatingIpAssociation => "OS::Neutron::FloatingIPAssociation"
  | server => "OS::Nova::Server"
  | flavor => "OS::Nova::Flavor"
  | volume => "OS::Cinder::Volume"
  | volumeAttachment => "OS::Cinder::VolumeAttachment"

/-- One declared resource. What it depends on must be declared before it. -/
structure Resource where
  name : String
  kind : ResourceKind
  properties : Json
  dependsOn : List String := []
  deriving BEq

/-- A value to be reported once the stack exists. -/
structure Output where
  description : String
  value : Json
  deriving BEq

/-- The resource of that name. -/
def resourceRef (name : String) : Json := .obj [("get_resource", .str name)]

/-- An attribute of the resource of that name. -/
def attributeRef (name : String) (path : List Json) : Json :=
  .obj [("get_attr", .arr (.str name :: path))]

end Provision
