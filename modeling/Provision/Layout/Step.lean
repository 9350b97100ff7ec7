import Provision.Graph.Basic

/-! The steps by which a graph is laid out. A step declares a resource, asks for an output, or notes a
port of a server's first instance. Steps are carried out one after another until one is refused. -/
namespace Provision

/-- The ports of servers: for each server, by network, the name of the port of its first instance. -/
abbrev PortTable := SortedMap (SortedMap String)

inductive Step
  | declare (resource : Resource)
  | report (name : String) (output : Output)
  | clearPorts (server : String)
  | notePort (server network port : String)

/-- What has been laid out so far. -/
structure Progress where
  graph : Graph
  ports : PortTable

namespace Progress

def portsOf (ports : PortTable) (server : String) : SortedMap String :=
  (ports.find? server).getD ∅

/-- A refused step changes nothing. -/
def step (p : Progress) : Step → Except GraphError Progress
  | .declare r =>
    match p.graph.declare r with
    | .ok g => .ok { p with graph := g }
    | .error e => .error e
  | .report name output => .ok { p with graph := p.graph.report name output }
  | .clearPorts server => .ok { p with ports := p.ports.insert server ∅ }
  | .notePort server network port =>
    .ok { p with ports := p.ports.insert server ((portsOf p.ports server).insert network port) }

/-- Carries out the steps up to the first that is refused; what was done before it stays done. -/
def run (p : Progress) : List Step → Progress × Option GraphError
  | [] => (p, none)
  | s :: rest =>
    match p.step s with
    | .ok p => p.run rest
    | .error e => (p, some e)

end Progress
end Provision
