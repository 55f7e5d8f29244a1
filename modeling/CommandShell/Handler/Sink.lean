import CommandShell.Handler.Completion
import CommandShell.Handler.Options
import CommandShell.Output.Writer
import CommandShell.Session.Context
import CommandShell.World

namespace CommandShell.Handler

open Binding (Slot Table)
open Output (Writer)
open Session (Context)
open World (Destination)

-- A place for formatted output, with its options.  Any `other` one is opened from a context path,
-- for which it may change the disk.
inductive Target where
  | console
  | captured
  | file (path : String) (append : Bool)
  | shell (command : String)
  | other (connect : World → String → Except Failure (World.Disk × Destination × Writer))

-- What can be registered as a sink: its options in a context, the place that it is once they are
-- bound, what it offers for a word, and the milliseconds that the offers take.
structure Sink where
  options : Context → Options
  target : List Slot → Target
  offers : World → Context → CompletionRequest → List String := fun _ _ _ => []
  delay : Nat := 0

namespace Sink

-- The table at the root, where a session starts.
def table (s : Sink) : Table := (s.options {}).table

-- The directory and the beginning of a name in a path that is being typed.
private def splitPath (path : List Char) : List Char × List Char :=
  let name := (path.reverse.takeWhile (· ≠ '/')).reverse
  (path.take (path.length - name.length), name)

-- Names of files that extend a path.  They follow the path as it was typed.
def fileOffers (world : World) (word : String) : List String :=
  let typed := (world.expandPath word).toList
  let (directory, name) := splitPath typed
  let shown := String.ofList (word.toList.take (word.toList.length - name.length))
  match world.disk.list (if directory.isEmpty then "." else String.ofList directory) with
  | .error _ => []
  | .ok names =>
    (names.filter fun n => name.isPrefixOf n.toList).map (shown ++ ·)

def console : Sink where
  options _ := .declared []
  target _ := .console

def captured : Sink where
  options _ := .declared []
  target _ := .captured

def file : Sink where
  options _ := .declared [⟨"path", ⟨.one, .path⟩, "*=#1"⟩, ⟨"append", flagType, "*=a|append"⟩]
  target slots := .file (valueAt slots 0).text (valueAt slots 1).flag
  offers world _ r := fileOffers world r.word

def shell : Sink where
  options _ := .declared [⟨"command", textType, "*=#1"⟩]
  target slots := .shell (valueAt slots 0).text

end Sink

namespace Target

private def startProgram (world : World) (command : String) : Except Failure Destination :=
  match World.splitWords command with
  | none => .error (.failed ("sh: cannot parse " ++ Text.quoted command))
  | some [] => .error (.failed "sh: empty command")
  | some (name :: args) =>
    match world.programs.find world.disk name args with
    | .error e => .error (.failed ("sh: " ++ name ++ ": " ++ e.message))
    | .ok program => .ok (.program program)

-- Open a place for writing from a context path.
def connect (t : Target) (world : World) (contextPath : String) :
    World × Except Failure (Destination × Writer) :=
  match t with
  | console => (world, .ok (.console, .unlimited))
  | captured => (world, .ok (.captured, .unlimited))
  | file path append =>
    let path := world.expandPath path
    match world.openFile path append with
    | .error e => (world, .error (.failed (path ++ ": " ++ e.message)))
    | .ok (world, destination) => (world, .ok (destination, .unlimited))
  | shell command => (world, (startProgram world command).map (·, .unlimited))
  | other connect =>
    match connect world contextPath with
    | .error e => (world, .error e)
    | .ok (disk, destination, writer) => ({ world with disk }, .ok (destination, writer))

end Target

end CommandShell.Handler
