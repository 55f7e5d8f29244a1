import CommandShell.Dictionary
import CommandShell.Text.Bytes
import CommandShell.Text.Split

namespace CommandShell.World

inductive FileError where
  | notFound
  | denied
  | notDirectory
  | isDirectory
  | nameTooLong
  | notText
  | zeroByte
  | zeroByteInCommand
deriving DecidableEq, Repr

namespace FileError

def message : FileError → String
  | notFound => "No such file or directory (os error 2)"
  | denied => "Permission denied (os error 13)"
  | notDirectory => "Not a directory (os error 20)"
  | isDirectory => "Is a directory (os error 21)"
  | nameTooLong => "File name too long (os error 36)"
  | notText => "stream did not contain valid UTF-8"
  | zeroByte => "file name contained an unexpected NUL byte"
  | zeroByteInCommand => "nul byte found in provided data"

end FileError

inductive Entry where
  | file (bytes : List UInt8)
  | directory
deriving DecidableEq, Repr

-- Parts of a path from the working directory, or from the root after an empty part.
abbrev Place := List String

namespace Place

def path (p : Place) : String := "/".intercalate p

-- The working directory, the root and what lies above are there without an entry.
def isAbove (p : Place) : Bool := p = [""] || p.all (· = "..")

-- Follow one part of a path.
def enter (p : Place) (part : String) : Place :=
  if part = "" ∨ part = "." then p
  else if part ≠ ".." then p ++ [part]
  else if p = [""] then p
  else if p.isAbove then ".." :: p
  else p.dropLast

end Place

-- Files and directories by their paths.
structure Disk where
  entries : Dictionary Entry := []
deriving DecidableEq, Repr

namespace Disk

def entry? (d : Disk) (p : Place) : Option Entry :=
  if p.isAbove then some .directory else Dictionary.get? p.path d.entries

def put (d : Disk) (p : Place) (e : Entry) : Disk :=
  ⟨Dictionary.insert p.path e d.entries⟩

-- Follow a path through directories that must exist; the last place need not.
def follow (d : Disk) (p : Place) : List String → Except FileError Place
  | [] => .ok p
  | part :: rest =>
    match d.entry? p with
    | none => .error .notFound
    | some (.file _) => .error .notDirectory
    | some .directory =>
      if 255 < Text.width part.toList then .error .nameTooLong
      else d.follow (p.enter part) rest

-- Where a path leads.
def locate (d : Disk) (path : String) : Except FileError Place :=
  if path = "" then .error .notFound
  else if path.toList.contains '\x00' then .error .zeroByte
  else if 4096 ≤ Text.width path.toList then .error .nameTooLong
  else
    match Text.splitString '/' path with
    | "" :: parts => d.follow [""] parts
    | parts => d.follow [] parts

def read (d : Disk) (path : String) : Except FileError (List UInt8) := do
  match d.entry? (← d.locate path) with
  | none => throw .notFound
  | some .directory => throw .isDirectory
  | some (.file bytes) => return bytes

def hasEntry (d : Disk) (path : String) : Bool :=
  match d.locate path with
  | .ok p => (d.entry? p).isSome
  | .error _ => false

-- Make a file ready for writing: it is created if it is not there, and emptied unless it is to be
-- appended to.
def openFile (d : Disk) (path : String) (append : Bool) : Except FileError (Disk × Place) := do
  let cut := path.toList.reverse.dropWhile (· = '/')
  let closed := cut.length < path.toList.length
  let p ← d.locate (if closed ∧ ¬cut.isEmpty then String.ofList cut.reverse else path)
  match d.entry? p with
  | some .directory => throw .isDirectory
  | some (.file _) =>
    if closed then throw .isDirectory
    else return (if append then d else d.put p (.file []), p)
  | none => if closed then throw .isDirectory else return (d.put p (.file []), p)

def append (d : Disk) (p : Place) (bytes : List UInt8) : Disk :=
  match d.entry? p with
  | some (.file before) => d.put p (.file (before ++ bytes))
  | _ => d

-- Make a directory and those above it, where nothing stands in the way.
def makeDirectories (d : Disk) (p : Place) : List String → Disk
  | [] => d
  | part :: rest =>
    let next := if p = [] ∧ part = "" then [""] else p.enter part
    match d.entry? next with
    | some .directory => d.makeDirectories next rest
    | some (.file _) => d
    | none => (d.put next .directory).makeDirectories next rest

-- Make the directories above a path.
def makeParents (d : Disk) (path : String) : Disk :=
  let above := (path.toList.reverse.dropWhile (· ≠ '/')).drop 1
  if above.isEmpty then d
  else d.makeDirectories [] (Text.splitString '/' (String.ofList above.reverse))

-- Put something at a path, with the directories above it.
def create (d : Disk) (path : String) (e : Entry) : Disk :=
  let p := match Text.splitString '/' path with
    | "" :: parts => parts.foldl Place.enter [""]
    | parts => parts.foldl Place.enter []
  if p.isAbove then d else (d.makeDirectories [] p.dropLast).put p e

-- Names in a directory.
def list (d : Disk) (path : String) : Except FileError (List String) := do
  let p ← d.locate path
  match d.entry? p with
  | none => throw .notFound
  | some (.file _) => throw .notDirectory
  | some .directory =>
    let front := if p = [] then "" else p.path ++ "/"
    return d.entries.filterMap fun (path, _) =>
      let rest := path.toList.drop front.length
      if front.toList.isPrefixOf path.toList ∧ ¬rest.contains '/' ∧ rest ≠ [] then
        some (String.ofList rest)
      else none

end Disk

end CommandShell.World
