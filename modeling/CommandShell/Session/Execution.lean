import CommandShell.Session.State

namespace CommandShell.Session

open Handler (Body Change Command)
open Output (Pipeline)

-- Runs the block of a command.
abbrev BlockRun := Session → Session × Option Failure

-- Where no block belongs to a command, nothing is run for it.
def runOf (block : Option BlockRun) : BlockRun := block.getD fun s => (s, none)

def apply (s : Session) : Change → Session
  | .cd path => s.cd path
  | .setVar name value => { s with context := s.context.setVar name value }
  | .unsetVar name => { s with context := s.context.unsetVar name }
  | .files change => { s with world := { s.world with disk := change s.world.disk } }
  | .raise => { s with cancellation := s.cancellation.raise }
  | .wait => { s with cancellation := s.cancellation.pollAll s.schedule }

-- A session with the request that it carries out.
structure Activity where
  session : Session
  request : Request

namespace Activity

def view (a : Activity) (hasBlock : Bool) : Handler.View where
  request := a.request
  hasBlock := hasBlock
  cancelled := a.session.cancellation.isCancelled a.request.id
  exiting := a.session.exiting
  context := a.session.context
  config := a.session.config
  world := a.session.world

def write (a : Activity) (f : Pipeline → Pipeline) : Activity × Option Failure :=
  let (world, request, failure) := a.request.write a.session.world f
  (⟨{ a.session with world }, request⟩, failure)

def closeOutput (a : Activity) : Activity × Option Failure :=
  let (world, request, failure) := a.request.closeOutput a.session.world
  (⟨{ a.session with world }, request⟩, failure)

-- Do what a body says.
def follow (block : Option BlockRun) : Body → Activity → Activity × Option Failure
  | .ends failure, a => (a, failure)
  | .look next, a => follow block (next (a.view block.isSome)) a
  | .change c next, a => follow block next { a with session := a.session.apply c }
  | .output use next, a =>
    let (a, failure) := a.write use
    follow block (next failure) a
  | .closeOutput next, a =>
    let (a, failure) := a.closeOutput
    follow block (next failure) a
  | .block next, a =>
    let (session, failure) := runOf block a.session
    follow block (next failure) { a with session }

-- Carry out a command that may have a block.
def perform (a : Activity) (c : Command) (block : Option BlockRun) : Activity × Option Failure :=
  follow block c.body a

-- Carry out a request from start to end.  A failure of the command comes before one of its output.
def carryOut (a : Activity) (c : Command) (block : Option BlockRun) : Session × Option Failure :=
  let begun := { a.session with cancellation := a.session.cancellation.start a.request.id }
  let (a, failure) := { a with session := begun }.perform c block
  let ended := { a.session with cancellation := a.session.cancellation.finish }
  let (a, closing) := { a with session := ended }.closeOutput
  (a.session, failure.or closing)

end Activity

end CommandShell.Session
