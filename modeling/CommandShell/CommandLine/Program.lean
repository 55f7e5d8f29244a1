import CommandShell.CommandLine.Arguments
import CommandShell.CommandLine.History
import CommandShell.CommandLine.TypedLine
import CommandShell.Handler.Library
import CommandShell.Session.Reading

namespace CommandShell.CommandLine

-- The exit status and what the program did.
structure Outcome where
  status : Nat
  world : World

private def ofSession (r : Session × Option Session.Error) : Outcome :=
  ⟨if r.2.isSome then 1 else 0, r.1.world⟩

-- Make the log file, if there is to be one.
def openLog (w : World) (path : Option String) : World :=
  match path with
  | none => w
  | some path =>
    { w with disk := (w.disk.makeParents path).writeFile path true [] }

private def complain (w : World) (message : String) : Outcome :=
  ⟨1, w.diagnose ("opsh: " ++ message ++ "\n")⟩

-- Terminals that lines cannot be edited on.  There the prompt is written even if input is piped.
def isPlainTerminal (w : World) : Bool :=
  match World.Environment.get? w.environment "TERM" with
  | some (.text name) =>
    String.ofList (name.toList.map Char.toLower) ∈ ["dumb", "cons25", "emacs"]
  | _ => false

private def lineInput (line : String) : Session.Input :=
  match typedLine? line with
  | some text => .line text
  | none => .failure "a backspace cuts a character in two"

private def linesOf (inputs : List Session.Input) : List String :=
  inputs.filterMap fun
    | .line text => some text
    | _ => none

-- Read commands from standard input.  The history is kept unless reading breaks off.
def runInteractively (s : Session) (historyPath : Option String) (input : String) : Outcome :=
  let history := History.load s.world historyPath
  let inputs := (Text.lines input).map lineInput
  let reading := { s with prompting := isPlainTerminal s.world }.read inputs
  match reading.failure with
  | some message => ⟨101, reading.session.world.diagnose (message ++ "\n")⟩
  | none =>
    let typed := linesOf (inputs.take reading.prompts.length)
    ⟨0, (typed.foldl History.addTyped history).save reading.session.world historyPath⟩

-- Run what the options ask for.
def runOptions (w : World) (o : Options) (input : String) : Outcome :=
  match o.config.elim (Config.load w) (Config.loadFrom w) with
  | .error e => complain w ("config error: " ++ e.message)
  | .ok config =>
    let w := openLog w (config.logPath w)
    let s : Session := { library := .standard, config, world := w }
    match o.line, o.script with
    | some line, _ => ofSession (s.runSource line)
    | none, some path =>
      match w.readText path with
      | .error e => complain w (path ++ ": " ++ e.message)
      | .ok text => ofSession (s.runSource text)
    | none, none => runInteractively s (config.historyPath w) input

-- Whether standard input is read.
def readsInput (arguments : List String) : Bool :=
  match readArguments {} arguments with
  | .ok (.run o) => o.line.isNone && o.script.isNone
  | _ => false

-- Run the program with its arguments and standard input.
def run (w : World) (arguments : List String) (input : String) : Outcome :=
  match readArguments {} arguments with
  | .ok .help => ⟨0, w.deliver .console (Text.encodeUtf8 usage)⟩
  | .ok .version => ⟨0, w.deliver .console (Text.encodeUtf8 versionText)⟩
  | .ok (.run options) => runOptions w options input
  | .error e => ⟨2, w.diagnose ("error: " ++ e.message ++ "\n")⟩

end CommandShell.CommandLine
