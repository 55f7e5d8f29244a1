import CommandShell.Text.Search
import CommandShell.World.Disk
import CommandShell.World.Words

namespace CommandShell.World

-- A program that output can be piped into.  Fed with its input, it gives the disk after it and what
-- it wrote to standard output.
structure Program where
  run : Disk → List UInt8 → Disk × List UInt8

-- The programs that can be started: what a name and arguments stand for on a disk.
structure Programs where
  find : Disk → String → List String → Except FileError Program

namespace Disk

-- Make a file and write to it, if that can be done.
def writeFile (d : Disk) (path : String) (append : Bool) (bytes : List UInt8) : Disk :=
  match d.openFile path append with
  | .ok (d, place) => d.append place bytes
  | .error _ => d

end Disk

namespace Program

-- Copies its input to files and to standard output.
def tee (append : Bool) (files : List String) : Program where
  run disk input := (files.foldl (fun d f => d.writeFile f append input) disk, input)

-- Puts its input into one file.
def copy (append : Bool) (file : String) : Program where
  run disk input := (disk.writeFile file append input, [])

def idle : Program where
  run disk _ := (disk, [])

end Program

namespace Programs

-- Whether to append, and the files.
private def teeArguments (append : Bool) : List String → Bool × List String
  | [] => (append, [])
  | arg :: rest =>
    if arg = "-a" ∨ arg = "--append" then teeArguments true rest
    else if arg = "--" then (append, rest)
    else if Text.startsWith arg "-" ∧ arg ≠ "-" then teeArguments append rest
    else
      let (append, files) := teeArguments append rest
      (append, arg :: files)

-- What a one-line shell script does with its input.
private def ofScript (script : String) : Program :=
  match splitWords script with
  | some ["cat", ">", file] => .copy false file
  | some ["cat", ">>", file] => .copy true file
  | some ["cat"] => .tee false []
  | _ => .idle

-- Where there is no program but a few common ones.  A name with a slash is looked up on the disk,
-- where there are none.
def common : Programs where
  find disk name args :=
    if (name :: args).any (·.toList.contains '\x00') then .error .zeroByteInCommand
    else if name.toList.contains '/' then
      match disk.locate name with
      | .error e => .error e
      | .ok place => .error (if (disk.entry? place).isSome then .denied else .notFound)
    else
      match name, args with
      | "tee", args =>
        let (append, files) := teeArguments false args
        .ok (.tee append files)
      | "sh", ["-c", script] => .ok (ofScript script)
      | "sh", _ => .ok .idle
      | "cat", [] => .ok (.tee false [])
      | _, _ => .error .notFound

end Programs

end CommandShell.World
