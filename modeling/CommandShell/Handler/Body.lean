import CommandShell.Config.Settings
import CommandShell.Session.Request

namespace CommandShell.Handler

open Output (Pipeline)
open Session (Context Request)

-- What a command can see: its request, and what its session is like but for the handlers.
structure View where
  request : Request
  hasBlock : Bool
  cancelled : Bool
  exiting : Bool
  context : Context
  config : Config
  world : World

def View.option (v : View) (index : Nat) : Binding.Slot := valueAt v.request.options index

-- What a command can change by itself: the place and the variables of its session, and the files.
-- It can also raise the trigger of cancellation, and wait until every watch has looked at it.
inductive Change where
  | cd (path : String)
  | setVar (name value : String)
  | unsetVar (name : String)
  | files (change : World.Disk → World.Disk)
  | raise
  | wait

-- What a command does, one thing after the other, until it ends with a failure or without one.  The
-- first use of the output opens it.  Where there is no block, nothing is run in its place.
inductive Body where
  | ends (failure : Option Failure)
  | look (next : View → Body)
  | change (c : Change) (next : Body)
  | output (use : Pipeline → Pipeline) (next : Option Failure → Body)
  | closeOutput (next : Option Failure → Body)
  | block (next : Option Failure → Body)

namespace Body

def fail (message : String) : Body := .ends (some (.failed message))

-- Go on unless there was a failure.
def proceed (next : Body) : Option Failure → Body
  | some e => .ends (some e)
  | none => next

-- Write one value, which is all that is left to do.
def write (name : Option String) (v : Json.Value) : Body :=
  .output (·.write (.value name v)) .ends

end Body

end CommandShell.Handler
