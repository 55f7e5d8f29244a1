import CommandShell.Session.Dispatch

namespace CommandShell.Session

mutual

-- Run one command and tell about its failure.
def runCommand (inner : TextRun) (script : Script) : Script.Command → Session → Session × Bool
  | .mk node blocks redirections, s =>
    let c := .mk node blocks redirections
    match dispatch s inner script c (firstBlock inner script blocks) with
    | (s, none) => (s, true)
    | (s, some e) => (s.report script c e, false)

-- Run commands in order.  A failing command does not keep the rest from running, but the whole
-- fails then; after an exit nothing runs.
def runBlock (inner : TextRun) (script : Script) :
    List Script.Command → Session → Session × Option Failure
  | [], s => (s, none)
  | c :: rest, s =>
    if s.exiting then (s, none)
    else
      let (s, succeeded) := runCommand inner script c s
      let (s, failure) := runBlock inner script rest s
      (s, if succeeded then failure else some .block)

-- The block that belongs to a command.
def firstBlock (inner : TextRun) (script : Script) : List (List Script.Command) → Option BlockRun
  | [] => none
  | block :: _ => some (runBlock inner script block)

end

-- Run a script that was read.
def runScript (inner : TextRun) (s : Session) (script : Script) : Session × Option Error :=
  let (s, failure) := runBlock inner script script.commands s
  (s, failure.map .run)

-- Run a complete text; one that cannot be read is told about and runs nothing.
def runText (inner : TextRun) (text : String) (s : Session) : Session × Option Error :=
  match Script.tokenize text with
  | .error e => (s.diagnose (Script.renderLines text e.span e.message), some (.lex e))
  | .ok script => runScript inner s script

-- Run texts that source files down to a number of levels.
def runWithin : Nat → TextRun
  | 0 => runText fun _ s => (s, none)
  | levels + 1 => runText (runWithin levels)

-- As many levels as are left: deeper ones are never asked for.
def inner (s : Session) : TextRun := runWithin (maxDepth - (s.depth + 1))

-- Run a complete text, such as a script file.
def runSource (s : Session) (text : String) : Session × Option Error :=
  runText s.inner text s

end CommandShell.Session
