/-! The rules that a declared topology can break, each with what breaks it. -/
namespace Provision

/-- The two kinds of groups, which have policies of their own. -/
inductive GroupKind
  | placement | server
  deriving DecidableEq

def GroupKind.title : GroupKind → String
  | placement => "placement group"
  | server => "server group"

/-- What a name was declared twice as. -/
inductive NameKind
  | context | placementGroup | serverGroup | resourceName
  deriving DecidableEq

def NameKind.title : NameKind → String
  | context => "context"
  | placementGroup => GroupKind.placement.title
  | serverGroup => GroupKind.server.title
  | resourceName => "resource name"

inductive TopologyError
  | unknownPlacementGroup (server group : String)
  | unknownServerGroup (server group : String)
  | unknownNetwork (server network : String)
  | invalidPolicy (kind : GroupKind) (policy : String)
  | noExternalNetwork (server context : String)
  | noRouteToExternal (server externalNetwork : String)
  | invalidCidr (text : String)
  | invalidSegmentationId (id : UInt32)
  | noInstances (server : String)
  | duplicate (kind : NameKind) (name : String)
  | emptyContextName
  deriving DecidableEq

def TopologyError.message : TopologyError → String
  | unknownPlacementGroup server group =>
    "server '" ++ server ++ "' references unknown placement group '" ++ group ++ "'"
  | unknownServerGroup server group =>
    "server '" ++ server ++ "' references unknown server group '" ++ group ++ "'"
  | unknownNetwork server network =>
    "server '" ++ server ++ "' references unknown network '" ++ network ++ "'"
  | invalidPolicy kind policy => "invalid " ++ kind.title ++ " policy '" ++ policy ++ "'"
  | noExternalNetwork server context =>
    "server '" ++ server ++ "' requests a floating IP but no network in context '" ++ context
      ++ "' has an external route"
  | noRouteToExternal server externalNetwork =>
    "server '" ++ server ++ "' requests a floating IP but none of its attached networks routes to '"
      ++ externalNetwork ++ "'"
  | invalidCidr text => "invalid CIDR '" ++ text ++ "'"
  | invalidSegmentationId id => "invalid segmentation id " ++ toString id.toNat ++ " (must be 1-4094)"
  | noInstances server => "server '" ++ server ++ "' must request at least one instance"
  | duplicate kind name => "duplicate " ++ kind.title ++ " '" ++ name ++ "'"
  | emptyContextName => "Configuration error: context name must not be empty"

end Provision
