import CommandShell.Handler.Handlers
import CommandShell.Json.Reader

namespace CommandShell.Handler

open Output (Memory Reaction Stage Token)
open Session (Attached)

-- Handlers that show what a session does with output, blocks, failures and cancellation.

namespace Command

-- Write values given as JSON, up to the first that cannot be read.
def writeTrees (name : Option String) : List String → Body
  | [] => .ends none
  | text :: rest =>
    match Json.parse? text with
    | none => .fail ("bad json " ++ text)
    | some v => .output (·.writeTree name v) (Body.proceed (writeTrees name rest))

def tree : Command where
  options _ := .declared
    [⟨"name", optionalText, "*=n|name,opt"⟩, ⟨"json", ⟨.many, .text⟩, "*=#1,opt"⟩]
  body := .look fun v => writeTrees (v.option 0).text? (v.option 1).texts

def attachedValue {α : Type} (x : Attached α) : Json.Value :=
  .array [.string x.name, .int x.token]

-- What is known about a request.
def inspection (v : View) : Json.Value :=
  let r := v.request
  let node := r.command.node
  .ofEntries [("id", .int r.id), ("name", .string r.name),
    ("source", .string (r.script.textOf node.extent)), ("args", .int (r.script.argsOf node).length),
    ("first", .int node.firstArg), ("path", .string r.context.path),
    ("block", .ofOption (fun (b : List Script.Command) => .int b.length) r.command.blocks.head?),
    ("pipes", .array (r.chain.pipes.map attachedValue)),
    ("formatter", .ofOption attachedValue r.chain.formatter),
    ("sink", .ofOption attachedValue r.chain.sink), ("cancelled", .bool v.cancelled)]

def inspect : Command where
  options := tree.options
  offers context r := ("at" ++ context.path) :: ("n" ++ toString r.args.length) :: r.args
  body := .look fun v => .output (·.writeTree none (inspection v)) .ends

-- Run the block some times, up to the first failure.
def repeated (last : Body) : Nat → Body
  | 0 => last
  | count + 1 => .block (Body.proceed (repeated last count))

def rerun : Command where
  options _ := .declared [⟨"count", countType .bits32, "*=#1"⟩]
  body := .look fun v =>
    let count := (v.option 0).nat
    if v.hasBlock then repeated (.write (some "ran") (.int count)) count
    else .fail "repeat needs a block"

-- What comes after the value that a failing command writes first, by the way it fails.
def failBy (name way : String) : Body :=
  match way with
  | "str" => .ends (some (.brokeDown "kaboom"))
  | "string" => .ends (some (.brokeDown "kaboom 6"))
  | "any" => .ends (some (.brokeDown "unknown panic"))
  | "io" => .ends (some (.io "io trouble"))
  | "json" => .ends (some (.json "EOF while parsing a value at line 1 column 3"))
  | "cancelled" => .ends (some .cancelled)
  | "closed" => .ends (some .outputClosed)
  | "options" => .fail (name ++ ": unexpected option type")
  | "output" => .output (·.fail (.failed "output failed")) .ends
  | "both" => .output (·.fail (.failed "output failed")) (Body.proceed (.fail "command failed"))
  | "again" => .closeOutput (Body.proceed (.output id .ends))
  | _ => .fail way

def fail : Command where
  options _ := .declared [⟨"text", textType, "*=#1"⟩]
  body := .look fun v => .output (·.write (.value none (.string "before")))
    (Body.proceed (failBy v.request.name (v.option 0).text))

def restart : Command where
  isApplicable context := Text.startsWith context.path "/services/"
  body := .look fun v => .write (some "restarted") (.string v.request.context.path)

-- Raise the trigger of cancellation and wait to be cancelled.  If another request took the trigger,
-- do something else in the end.
def stall (otherwise : Body) : Command where
  body := .change .raise <| .change .wait <| .look fun v =>
    if v.cancelled then .ends (some .cancelled) else otherwise

def slow : Command where
  offers _ _ := ["late"]
  delay := 500
  body := .ends none

end Command

-- Emits something for each of so many tokens and then fails.
def failing {ω : Type} (count : Nat) (shown : Token → ω) (failure : Failure) : Stage ω :=
  let ready (read : Memory) : Reaction ω Memory :=
    if count ≤ read.length then .stop (some failure) else .await read
  { start := ready []
    behaviour :=
      { onToken := fun read t => .emitAll [shown t] (ready (t :: read))
        onEnd := fun _ => .stop none } }

namespace Pipe

-- Fails, or breaks down, after the tokens it was told to pass on.
def faulty (breaks : Bool) : Pipe where
  options := .declared [⟨"count", countType .bits32, "*=#1"⟩]
  filter slots :=
    let count := (valueAt slots 0).nat
    .other <| failing count id <|
      if breaks then .brokeDown "pipe panicked" else .failed ("failed after " ++ toString count)
  offers _ := ["10", "1", "10"]

end Pipe

namespace Formatter

def tallyLine : Token → String
  | .object name => "object " ++ label name
  | .array name => "array " ++ label name
  | .close => "end"
  | .value name v => "value " ++ label name ++ " " ++ v.compact
  | .endOfStream => "eos"
where
  label (name : Option String) : String := (Json.Value.ofOption .string name).compact

-- Names each token and counts them.
def tally : Formatter where
  options := .declared []
  format _ := .other
    { start := .await []
      behaviour :=
        { onToken := fun read t => .emitAll [tallyLine t ++ "\n"] (.await (t :: read))
          onEnd := fun read =>
            .emitAll [toString read.length ++ " done=true rest=0\n"] (.stop none) } }
  offers r := [r.name ++ "!"]

-- Fails, or breaks down, after the tokens it was told to write a dot for.
def faulty (breaks : Bool) : Formatter where
  options := .declared [⟨"count", countType .bits32, "*=#1"⟩]
  format slots :=
    let count := (valueAt slots 0).nat
    .other <| failing count (fun _ => ".\n") <|
      if breaks then .brokeDown "formatter panicked"
      else .failed ("formatter failed after " ++ toString count)

end Formatter

namespace Sink

def closed : Sink where
  options _ := .declared [⟨"text", textType, "*=#1"⟩]
  target slots := .other fun _ path =>
    .error (.failed ("no sink " ++ (valueAt slots 0).text ++ " at " ++ path))
  offers _ _ _ := ["where"]

-- Has room for so many bytes.
def narrow : Sink where
  options _ := .declared [⟨"count", countType .bits32, "*=#1"⟩]
  target slots := .other fun world _ =>
    .ok (world.disk, .captured, ⟨some (valueAt slots 0).nat, []⟩)

end Sink

end CommandShell.Handler
