import CommandShell.Handler.Sink
import CommandShell.Output.Pipeline
import CommandShell.Script.Outline

namespace CommandShell.Session

open Output (Filter Format Pipeline)
open World (Destination)

-- A bound handler with its name and the script index of the token that asked for it.
structure Attached (α : Type) where
  name : String
  token : Nat
  stage : α

-- What the output of a request runs through.
structure Chain where
  pipes : List (Attached Filter) := []
  formatter : Option (Attached Format) := none
  sink : Option (Attached Handler.Target) := none

-- A command with its options and its chain.  The output is opened by the first use.
structure Request where
  id : Nat
  script : Script
  command : Script.Command
  options : List Binding.Slot
  context : Context
  chain : Chain
  output : Option (Destination × Pipeline) := none

namespace Request

def name (r : Request) : String := (r.script.token r.command.head).text

def fault (r : Request) (message : String) : Failure := .failed (r.name ++ ": " ++ message)

-- Open the output, which uses up the chain even if it fails.
def openOutput (r : Request) (w : World) : World × Request × Option Failure :=
  match r.output, r.chain.formatter, r.chain.sink with
  | some _, _, _ => (w, r, none)
  | none, none, _ => (w, r, some (r.fault "no formatter available"))
  | none, some _, none =>
    (w, { r with chain.formatter := none }, some (r.fault "no sink available"))
  | none, some formatter, some sink =>
    match sink.stage.connect w r.context.path with
    | (w, .error e) => (w, { r with chain.formatter := none, chain.sink := none }, some e)
    | (w, .ok (destination, writer)) =>
      let pipeline := Pipeline.start (r.chain.pipes.map (·.stage)) formatter.stage writer
      (w, { r with chain := {}, output := some (destination, pipeline) }, none)

-- Write to the output.
def write (r : Request) (w : World) (f : Pipeline → Pipeline) : World × Request × Option Failure :=
  match r.openOutput w with
  | (w, r, some e) => (w, r, some e)
  | (w, r, none) => (w, { r with output := r.output.map fun (d, p) => (d, f p) }, none)

-- End the output, if there is one, and hand over what was written.
def closeOutput (r : Request) (w : World) : World × Request × Option Failure :=
  match r.output with
  | none => (w, r, none)
  | some (destination, pipeline) =>
    let (pipeline, failure) := pipeline.close
    (w.deliver destination pipeline.bytes, { r with output := none }, failure)

end Request

end CommandShell.Session
