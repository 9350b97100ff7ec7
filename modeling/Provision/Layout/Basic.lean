import Provision.Layout.NetworkSteps
import Provision.Layout.ServerSteps
import Provision.Placement.Order

/-! The layout of a topology: access resources, server groups that have members, networks, and servers
in the order of placement. The steps are a function of the topology alone. -/
namespace Provision.Topology

open Json

/-- A key pair without a public key is generated, and its private key is asked for. -/
def keypairSteps (t : Topology) : List Step :=
  match t.declared.publicKey with
  | some key =>
    [.declare ⟨t.keypair, .keyPair, obj [("name", str t.keypair), ("public_key", str key)], []⟩]
  | none =>
    [.report (t.keypair ++ "-private_key")
        ⟨"Private key of " ++ t.keypair, attributeRef t.keypair [str "private_key"]⟩,
      .declare ⟨t.keypair, .keyPair,
        obj [("name", str t.keypair), ("save_private_key", bool true)], []⟩]

/-- A rule that lets a protocol in from everywhere, on all ports where it has ports. -/
def securityRule (protocol : String) : Json :=
  obj ([("remote_ip_prefix", str "0.0.0.0/0"), ("protocol", str protocol)] ++
    if protocol = "icmp" then [] else [("port_range_min", int 1), ("port_range_max", int 65535)])

def securityGroupSteps (t : Topology) : List Step :=
  [.declare ⟨t.securityGroup, .securityGroup,
    obj [("name", str t.securityGroup),
      ("description", str ("Group allowing icmp, tcp and udp for " ++ t.name)),
      ("rules", arr (["icmp", "tcp", "udp"].map securityRule))], []⟩]

def serverGroupStep (g : ServerGroup) : Step :=
  .declare ⟨g.resourceName, .serverGroup,
    obj [("name", str g.resourceName), ("policies", arr [str g.policy.name])], []⟩

/-- The steps of servers that are placed one after another, `placed` being those placed before. -/
def serverSteps (t : Topology) (placed : List String) : List Server → List Step
  | [] => []
  | s :: rest =>
    s.steps t.networks (Hints.forServer t placed s) ++
      t.serverSteps (placed ++ [s.resourceName]) rest

def steps (t : Topology) : List Step :=
  t.keypairSteps ++ t.securityGroupSteps ++
  (t.serverGroups.filter fun g => !g.members.isEmpty).map serverGroupStep ++
  t.networks.flatMap Network.steps ++
  t.serverSteps [] t.placementOrder

/-- Lays the topology out, with the ports that were known before. -/
def layOut (t : Topology) (ports : PortTable) : PortTable × Except GraphError Graph :=
  match Progress.run ⟨.empty ("Stack for context " ++ t.name), ports⟩ t.steps with
  | (p, none) => (p.ports, .ok p.graph)
  | (p, some e) => (p.ports, .error e)

end Provision.Topology
