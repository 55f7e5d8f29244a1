import CommandShell.World.Environment
import CommandShell.World.Program

namespace CommandShell

-- What a session acts on: the environment, the home directory of the account, the programs and the
-- files that there are, and what was written to the captured output, to standard output and to the
-- diagnostics.
structure World where
  environment : World.Environment := []
  accountHome : Option String := none
  programs : World.Programs := .common
  disk : World.Disk := {}
  captured : List UInt8 := []
  console : List UInt8 := []
  diagnostics : String := ""

namespace World

-- Where formatted output goes.
inductive Destination where
  | captured
  | console
  | file (place : Place)
  | program (program : Program)

-- Expand the tilde of a path.
def expandPath (w : World) (path : String) : String :=
  expandTilde (w.environment.pathHome? w.accountHome) path

def openFile (w : World) (path : String) (append : Bool) :
    Except FileError (World × Destination) := do
  let (disk, place) ← w.disk.openFile path append
  return ({ w with disk }, .file place)

def deliver (w : World) (d : Destination) (bytes : List UInt8) : World :=
  match d with
  | .captured => { w with captured := w.captured ++ bytes }
  | .console => { w with console := w.console ++ bytes }
  | .file place => { w with disk := w.disk.append place bytes }
  | .program p =>
    let (disk, out) := p.run w.disk bytes
    { w with disk, console := w.console ++ out }

def readText (w : World) (path : String) : Except FileError String := do
  match Text.decodeUtf8? (← w.disk.read path) with
  | some text => return text
  | none => throw .notText

def diagnose (w : World) (text : String) : World :=
  { w with diagnostics := w.diagnostics ++ text }

end World

end CommandShell
