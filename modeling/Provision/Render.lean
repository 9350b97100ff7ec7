import Provision.Declaration.Reader
import Provision.Graph.Template
import Provision.Session
import Provision.Stack.Simulated

/-! The command: prints the templates of the contexts in a file, and on request deploys them to a
simulated backend, prints how to reach the servers, and deletes everything again. -/
namespace Provision

/-- What a run is asked to do, and in what time. -/
structure RenderOptions where
  path : String
  simulate : Bool := false
  timing : Timing := {}
  deriving DecidableEq

/-- What a run finds around it: the variables of the environment that count, and the moment from which on
the clock cannot tell the time, in nanoseconds from the start of the run. -/
structure Environment where
  topologyFile : Option String := none
  pollSeconds : Option String := none
  horizon : Nat := Timer.horizon

inductive RenderError
  | unknownOption (option : String)
  | noFile
  | badPollSeconds
  | unreadable (path : String)
  | unparsable (path : String)
  | invalidTopology (context : String) (cause : TopologyError)
  | notCompiled (cause : GraphError)
  | notDeployed (context : String) (cause : StackError)
  | notDeleted (cause : StackError)
  /-- The run ended where it stood. -/
  | overflow
  deriving DecidableEq

/-- The message of a stack error and the messages of what caused it. -/
def StackError.messages (e : StackError) : List String :=
  e.message :: match e with
    | .lifecycle cause => [cause.message]
    | .compile cause => [cause.message]
    | _ => []

/-- The message of an error and, where they are told, the messages of its causes. -/
def RenderError.messages : RenderError → List String
  | unknownOption option => ["unknown option " ++ option]
  | noFile => ["no topology file given and TOPOLOGY_FILE not set"]
  | badPollSeconds => ["STACK_POLL_SECS must be a number of seconds"]
  | unreadable path => ["Failed to read " ++ path]
  | unparsable path => ["Failed to parse " ++ path]
  | invalidTopology context cause =>
    ["Invalid topology for context " ++ context, cause.message]
  | notCompiled cause => ["Failed to compile topology", cause.message]
  | notDeployed context cause => ("Failed to deploy context " ++ context) :: cause.messages
  | notDeleted cause => "Failed to delete stacks" :: cause.messages
  | overflow => [StackError.overflow.message]

/-- What the process tells of the way it ended. -/
def RenderError.exitCode : RenderError → Nat
  | overflow => 101
  | _ => 1

/-- What becomes of a failure that the caller tells in its own words. An overflow is not told by anyone. -/
def StackError.told (e : StackError) (tell : StackError → RenderError) : RenderError :=
  if e = .overflow then .overflow else tell e

namespace RenderOptions

/-- The options in the arguments: whether to simulate, and the last path. -/
def readArguments : List String → Except RenderError (Bool × Option String)
  | [] => .ok (false, none)
  | arg :: rest =>
    if arg = "--simulate" then (readArguments rest).map fun (_, path) => (true, path)
    else if "--".toList.isPrefixOf arg.toList then .error (.unknownOption arg)
    else (readArguments rest).map fun (simulate, path) => (simulate, path <|> some arg)

/-- Arguments come before the environment, and the path before the interval. -/
def read (arguments : List String) (environment : Environment) :
    Except RenderError RenderOptions := do
  let (simulate, path?) ← readArguments arguments
  match path? <|> environment.topologyFile with
  | none => throw .noFile
  | some path =>
    let timing : Timing := { horizon := environment.horizon }
    match environment.pollSeconds with
    | none => return { path, simulate, timing }
    | some text =>
      match Text.readBelow? UInt64.size text.toList with
      | some seconds =>
        return { path, simulate, timing := { timing with pollInterval := Timer.second * seconds } }
      | none => throw .badPollSeconds

end RenderOptions

def Interface.toJson (i : Interface) : Json :=
  .obj [("private_ip", .option .str i.privateIp),
    ("mac_address", .option .str i.macAddress),
    ("subnet_cidr", .option .str i.subnetCidr),
    ("gateway_ip", .option .str i.gatewayIp)]

def ServerInfo.toJson (i : ServerInfo) : Json :=
  .obj [("user", .str i.user),
    ("keypair_name", .str i.keypair),
    ("private_ip", .option .str i.privateIp),
    ("public_ip", .option .str i.publicIp),
    ("interfaces", .members Interface.toJson i.interfaces.entries)]

namespace Render

/-- Builds and lays out one context after another. Each gives one block of output, the template. -/
def templates : List ContextDeclaration → Session → List String × Except RenderError Session
  | [], s => ([], .ok s)
  | declared :: rest, s =>
    match s.newContext declared with
    | .error e => ([], .error (.invalidTopology declared.name e))
    | .ok context =>
      match context.compile with
      | (.error e, _) => ([], .error (.notCompiled e))
      | (.ok graph, context) =>
        let (blocks, result) := templates rest (s.add context)
        (graph.template.pretty :: blocks, result)

/-- Deploys the contexts in order; the first that fails ends it. -/
def deployEach (m : Manager Simulation) :
    List Context → Except RenderError (List Context) × Manager Simulation
  | [] => (.ok [], m)
  | c :: rest =>
    match c.deploy Simulation.backend m with
    | ((.error e, _), m) => (.error (e.told (.notDeployed c.name)), m)
    | ((.ok _, c), m) =>
      let (others, m) := deployEach m rest
      (others.map (c :: ·), m)

/-- One block for each server: its distinguished name and how to reach it. -/
def serverBlocks (s : Session) : List String :=
  s.servers.filterMap fun (_, server) =>
    (s.serverInfo? server.dn).map fun info => server.dn ++ " " ++ info.toJson.pretty

/-- Deploys the session, prints the servers, and deletes the stacks, also those of a deployment that
failed. An overflow leaves all stacks as they are. -/
def simulate (timing : Timing) (s : Session) : (List String × Option RenderError) × Manager Simulation :=
  match deployEach { timing, backend := {} } s.contexts with
  | (.error .overflow, m) => (([], some .overflow), m)
  | (.error e, m) =>
    match m.deleteAll Simulation.backend with
    | (.error .overflow, m) => (([], some .overflow), m)
    | (_, m) => (([], some e), m)
  | (.ok contexts, m) =>
    let blocks := serverBlocks ⟨contexts⟩
    match m.deleteAll Simulation.backend with
    | (.ok _, m) => ((blocks, none), m)
    | (.error e, m) => ((blocks, some (e.told .notDeleted)), m)

/-- The blocks of output of a run, and the error that ended it. -/
def blocks (options : RenderOptions) (contexts : List ContextDeclaration) :
    List String × Option RenderError :=
  match templates contexts {} with
  | (blocks, .error e) => (blocks, some e)
  | (blocks, .ok session) =>
    if options.simulate then
      let (more, e) := (simulate options.timing session).1
      (blocks ++ more, e)
    else (blocks, none)

/-- A run whose file system is the given function from paths to contents. -/
def run (arguments : List String) (environment : Environment) (file : String → Option String) :
    List String × Option RenderError :=
  match RenderOptions.read arguments environment with
  | .error e => ([], some e)
  | .ok options =>
    match file options.path with
    | none => ([], some (.unreadable options.path))
    | some text =>
      match readFile text with
      | none => ([], some (.unparsable options.path))
      | some contexts => blocks options contexts

end Render
end Provision
