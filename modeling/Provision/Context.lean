import Provision.Layout.Basic
import Provision.Stack.Deletion

/-! A context: a topology together with what has become known of it, the ports from laying it out, and
ids and addresses from the outputs of its stack. Nothing that becomes known changes the topology. -/
namespace Provision

/-- The addressing of a server on one network. -/
structure Interface where
  privateIp : Option String := none
  macAddress : Option String := none
  subnetCidr : Option String := none
  gatewayIp : Option String := none
  deriving DecidableEq

/-- What outputs tell of a server. -/
structure Addresses where
  id : Option String := none
  publicIp : Option String := none
  privateIp : Option String := none
  /-- By network. -/
  interfaces : SortedMap Interface := ∅
  deriving DecidableEq

structure Context where
  topology : Topology
  ports : PortTable := ∅
  /-- The ids of networks that have one, by name. -/
  networkIds : SortedMap String := ∅
  /-- By the name of the server. -/
  addresses : SortedMap Addresses := ∅
  /-- The stack of the last deployment that succeeded and was not undone. -/
  stack : Option Stack := none
  deriving DecidableEq

namespace Context

def name (c : Context) : String := c.topology.name

/-- A context of which nothing is known yet. -/
def build (declared : ContextDeclaration) : Except TopologyError Context :=
  (Topology.build declared).map fun topology => { topology }

def portsOf (c : Context) (s : Server) : SortedMap String := Progress.portsOf c.ports s.name

def addressesOf (c : Context) (s : Server) : Addresses := (c.addresses.find? s.name).getD {}

def networkId? (c : Context) (n : Network) : Option String := c.networkIds.find? n.name

/-- Lays out the topology and notes the ports. -/
def compile (c : Context) : Except GraphError Graph × Context :=
  let (ports, result) := c.topology.layOut c.ports
  (result, { c with ports })

/-- The interface behind a port. -/
def interfaceOf (networks : List Network) (outputs : SortedMap String) (network port : String) :
    Interface :=
  let subnet := (networks.find? fun n => n.name == network).map Network.subnetName
  { privateIp := outputs.find? port
    macAddress := outputs.find? (port ++ "-mac_address")
    subnetCidr := subnet.bind fun s => outputs.find? (s ++ "-cidr")
    gatewayIp := subnet.bind fun s => outputs.find? (s ++ "-gateway_ip") }

/-- The addresses of a server: its private one is that of its first network, or else the one reported
for the server itself. -/
def addressesFrom (networks : List Network) (outputs : SortedMap String) (ports : SortedMap String)
    (s : Server) : Addresses :=
  let interfaces := SortedMap.ofList
    (ports.entries.map fun e => (e.1, interfaceOf networks outputs e.1 e.2))
  let ofFirst := (s.networks.head?.bind interfaces.find?).bind Interface.privateIp
  { id := outputs.find? (s.resourceName ++ "-id")
    publicIp := s.floatingIp.bind fun _ => outputs.find? (floatingIpName s.resourceName)
    privateIp := ofFirst <|> outputs.find? s.resourceName
    interfaces }

/-- Takes over the outputs of a stack in place of all that was known from outputs before. -/
def applyOutputs (c : Context) (outputs : SortedMap String) : Context :=
  { c with
    networkIds := .ofList (c.topology.networks.filterMap fun n =>
      (outputs.find? (n.resourceName ++ "-id")).map (n.name, ·))
    addresses := .ofList (c.topology.servers.map fun s =>
      (s.name, addressesFrom c.topology.networks outputs (c.portsOf s) s)) }

variable {σ : Type}

/-- Lays out the topology, creates its stack and waits for it, and takes over the outputs. -/
def deploy (b : Backend σ) (c : Context) (m : Manager σ) :
    (Except StackError Unit × Context) × Manager σ :=
  match c.compile with
  | (.error e, c) => ((.error (.compile e), c), m)
  | (.ok graph, c) =>
    let timeout := Timer.second * c.topology.declared.timeout.toNat
    match m.create b c.name graph c.topology.declared.parameters (.blocking timeout) with
    | (.error e, m) => ((.error e, c), m)
    | (.ok stack, m) => ((.ok (), { c.applyOutputs stack.outputs with stack := some stack }), m)

/-- Deletes the stack of the context. -/
def undeploy (b : Backend σ) (c : Context) (m : Manager σ) :
    (Except StackError Unit × Context) × Manager σ :=
  match m.delete b c.name true m.timing.deleteRetries with
  | (.error e, m) => ((.error e, c), m)
  | (.ok _, m) => ((.ok (), { c with stack := none }), m)

end Context
end Provision
