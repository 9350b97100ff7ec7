import Provision.Declaration.Writer
import Provision.Layout.Step
import Provision.Placement.Hints

/-! The resources of a server: a flavor of its own, and for each instance a volume, one port on each
attached network with the floating address it may carry, the instance itself, and the attachment of
the volume. What an instance needs stands before it. -/
namespace Provision.Server

open Json

def flavorResource (s : Server) (f : InlineFlavor) : Resource where
  name := s.flavorName
  kind := .flavor
  properties := obj [("name", str (f.name.getD s.flavorName)),
    ("vcpus", unsigned f.vcpus.toNat),
    ("ram", unsigned f.ram.toNat),
    ("disk", unsigned f.disk.toNat),
    ("extra_specs", members str f.extraSpecs.entries)]

def flavorSteps (s : Server) : List Step :=
  match s.flavor with
  | some (.inline f) => [.declare (s.flavorResource f)]
  | _ => []

/-- The value of an instance's flavor property. -/
def flavorProperty (s : Server) : List (String × Json) :=
  match s.flavor with
  | some (.inline _) => [("flavor", resourceRef s.flavorName)]
  | some (.named name) => [("flavor", str name)]
  | none => []

/-- The flavor resource, if the server has one of its own. -/
def ownFlavor (s : Server) : List String :=
  match s.flavor with
  | some (.inline _) => [s.flavorName]
  | _ => []

def volumeResource (inst : String) (size : UInt32) : Resource where
  name := volumeName inst
  kind := .volume
  properties := obj [("name", str (volumeName inst)), ("size", unsigned size.toNat)]

def volumeSteps (s : Server) (inst : String) : List Step :=
  match s.declared.volume with
  | some (.inline size) => [.declare (volumeResource inst size)]
  | _ => []

def attachmentResource (s : Server) (inst : String) (volume : Json) (own : List String) :
    Resource where
  name := attachmentName inst
  kind := .volumeAttachment
  properties := obj [("instance_uuid", resourceRef inst),
    ("volume_id", volume),
    ("mountpoint", str s.mountpoint)]
  dependsOn := inst :: own

def attachmentSteps (s : Server) (inst : String) : List Step :=
  match s.declared.volume with
  | some (.inline _) =>
    [.declare (s.attachmentResource inst (resourceRef (volumeName inst)) [volumeName inst])]
  | some (.existing id) => [.declare (s.attachmentResource inst (str id) [])]
  | none => []

/-- A port without security has no security group. -/
def securityProperties (s : Server) (n : Network) : List (String × Json) :=
  let groups := ("security_groups", arr [resourceRef (securityGroupName s.context)])
  match n.declared.portSecurity with
  | some false => [("port_security_enabled", bool false)]
  | some true => [groups, ("port_security_enabled", bool true)]
  | none => [groups]

def portResource (s : Server) (n : Network) (port : String) : Resource where
  name := port
  kind := .port
  properties := obj ([("name", str port),
    ("network_id", resourceRef n.resourceName),
    ("fixed_ips", arr [obj [("subnet_id", resourceRef n.subnetName)]])] ++
    s.securityProperties n ++
    (if n.declared.vnicType = "normal" then []
      else [("binding:vnic_type", str n.declared.vnicType)]) ++
    (if n.declared.allowedAddressPairs = [] then []
      else [("allowed_address_pairs", arr (n.declared.allowedAddressPairs.map AddressPair.toJson))]))
  dependsOn := [n.subnetName]

def floatingIpResource (inst : String) (f : FloatingIp) (n : Network) : Resource where
  name := floatingIpName inst
  kind := .floatingIp
  properties := obj [("floating_network", str f.externalNetwork)]
  dependsOn := (n.router?.map Router.interfaceName).toList

def associationResource (inst port : String) : Resource where
  name := associationName inst
  kind := .floatingIpAssociation
  properties := obj [("floatingip_id", resourceRef (floatingIpName inst)),
    ("port_id", resourceRef port)]
  dependsOn := [floatingIpName inst, port]

/-- The floating address of an instance, if the server's one goes through this network. -/
def floatingIpSteps (s : Server) (inst : String) (n : Network) : List Step :=
  match s.floatingIp.filter fun f => f.network == n.name with
  | some f =>
    [.declare (floatingIpResource inst f n),
      .report (floatingIpName inst) ⟨"Floating address of " ++ inst,
        attributeRef (floatingIpName inst) [str "floating_ip_address"]⟩,
      .declare (associationResource inst (portName inst n.name))]
  | none => []

/-- The port of instance `i` on a network; that of the first instance is noted. -/
def portSteps (s : Server) (i : Nat) (n : Network) : List Step :=
  let inst := s.instanceName i
  let port := portName inst n.name
  [.declare (s.portResource n port),
    .report port ⟨"Address of port " ++ port,
      attributeRef port [str "fixed_ips", int 0, str "ip_address"]⟩,
    .report (port ++ "-mac_address") ⟨"MAC address of port " ++ port,
      attributeRef port [str "mac_address"]⟩] ++
  (if i = 0 then [.notePort s.name n.name port] else []) ++
  s.floatingIpSteps inst n

/-- The property of a name that may be absent. -/
def nameProperty (key : String) (value : Option String) : List (String × Json) :=
  (value.map fun v => (key, str v)).toList

/-- The ports, the flavor, and every hinted resource that is not among them. -/
def instanceDependencies (s : Server) (ports : List String) (hints : Hints) : List String :=
  hints.referenced.foldl (fun ds d => if ds.contains d then ds else ds ++ [d]) (ports ++ s.ownFlavor)

def instanceResource (s : Server) (networks : List Network) (hints : Hints) (inst : String) :
    Resource :=
  let ports := networks.map fun n => portName inst n.name
  { name := inst
    kind := .server
    properties := obj ([("name", str inst), ("key_name", resourceRef (keypairName s.context))] ++
      nameProperty "image" s.image ++
      s.flavorProperty ++
      [("networks", arr (ports.map fun p => obj [("port", resourceRef p)]))] ++
      (if hints.isEmpty then [] else [("scheduler_hints", hints.toJson)]) ++
      nameProperty "availability_zone" s.declared.availabilityZone ++
      nameProperty "user_data" s.declared.userData)
    dependsOn := s.instanceDependencies ports hints }

/-- All resources of instance `i`, on the networks it is attached to. -/
def instanceSteps (s : Server) (networks : List Network) (hints : Hints) (i : Nat) : List Step :=
  let inst := s.instanceName i
  s.volumeSteps inst ++
  networks.flatMap (s.portSteps i) ++
  [.declare (s.instanceResource networks hints inst),
    .report inst ⟨"Address of server " ++ inst, attributeRef inst [str "first_address"]⟩,
    .report (inst ++ "-id") ⟨"ID of server " ++ inst, resourceRef inst⟩] ++
  s.attachmentSteps inst

def steps (s : Server) (networks : List Network) (hints : Hints) : List Step :=
  s.flavorSteps ++ [.clearPorts s.name] ++
  (List.range s.instances).flatMap (s.instanceSteps (s.attached networks) hints)

end Provision.Server
