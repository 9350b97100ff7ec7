import Provision.Render

/-! The command line. -/
namespace Provision

/-- An error with its causes below it. -/
def errorReport (messages : List String) : String :=
  match messages with
  | [] => "Error"
  | [message] => "Error: " ++ message
  | [message, cause] => "Error: " ++ message ++ "\n\nCaused by:\n    " ++ cause
  | message :: causes =>
    "Error: " ++ message ++ "\n\nCaused by:" ++
      String.join (causes.zipIdx.map fun (cause, i) => "\n    " ++ toString i ++ ": " ++ cause)

/-- The content of a file, if it can be read. -/
def content? (path : String) : IO (Option String) := do
  try
    return some (← IO.FS.readFile path)
  catch _ => return none

/-- Prints the blocks of a run and, if it failed, the report of its error. -/
def runCommand (arguments : List String) : IO UInt32 := do
  let environment : Environment :=
    { topologyFile := ← IO.getEnv "TOPOLOGY_FILE", pollSeconds := ← IO.getEnv "STACK_POLL_SECS" }
  let content ← match RenderOptions.read arguments environment with
    | .ok options => content? options.path
    | .error _ => pure none
  let (blocks, error) := Render.run arguments environment fun _ => content
  for block in blocks do
    IO.println block
  match error with
  | none => return 0
  | some e =>
    IO.eprintln (errorReport e.messages)
    return e.exitCode.toUInt32

end Provision

def main (arguments : List String) : IO UInt32 := Provision.runCommand arguments
