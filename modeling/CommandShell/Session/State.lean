import CommandShell.Handler.Handlers
import CommandShell.Script.Excerpt
import CommandShell.Session.Cancellation
import CommandShell.Session.Error
import CommandShell.Session.Interpolation

namespace CommandShell

-- A shell session: its handlers and settings, where it is, the line being read, and what it acts
-- on.  `schedule` says in which order the watches of running requests, the innermost first, look at
-- the trigger; `requests` counts the requests made and `depth` the scripts that are being sourced;
-- `prompting` says whether prompts are written to standard output.
structure Session where
  library : Handler.Library
  config : Config := {}
  context : Session.Context := {}
  scanner : Script.Scanner := .new
  cancellation : Session.Cancellation := {}
  schedule : List Nat → List Nat := List.reverse
  requests : Nat := 0
  exiting : Bool := false
  prompting : Bool := false
  depth : Nat := 0
  world : World := {}

namespace Session

-- Scripts can be sourced from one another this deep.
def maxDepth : Nat := 16

def cd (s : Session) (path : String) : Session := { s with context := s.context.cd path }

def diagnose (s : Session) (text : String) : Session := { s with world := s.world.diagnose text }

def interpolation (s : Session) : Binding.Interpolation :=
  fun text => (s.context.interpolate s.world.environment text).mapError (·.message)

-- Where an error of a command is shown: its token, or the command's name if it has none.
def caret (script : Script) (command : Script.Command) (token : Option Nat) :
    Script.Span :=
  let index := (token.filter (· < script.tokens.size)).getD command.head
  (script.token index).span

-- Tell about a command that failed.  Errors that have a place are shown with the command.
def report (s : Session) (script : Script) (command : Script.Command) (e : Error) :
    Session :=
  let shown (token : Option Nat) : String :=
    Script.render script.source (script.spanOf command.node.extent) (caret script command token)
      e.message
  s.diagnose <| match e with
    | .bind b => shown b.token
    | .dispatch d => shown (some d.token)
    | .lex l => Script.renderLines script.source l.span l.message
    | .run _ | .config _ => (script.token command.head).text ++ ": " ++ e.message ++ "\n"

end Session

end CommandShell
