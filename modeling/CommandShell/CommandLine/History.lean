import CommandShell.Text.Split
import CommandShell.Text.WhiteSpace
import CommandShell.World

namespace CommandShell.CommandLine

-- Lines that were typed, the latest first, and whether there are any that are not in the file.
structure History where
  lines : List String := []
  grown : Bool := false
deriving DecidableEq, Repr

namespace History

-- Lines that are kept.
def capacity : Nat := 100

-- Add a line, unless it is empty or repeats the latest one.
def add (h : History) (line : String) : History :=
  if line = "" ∨ h.lines.head? = some line then h
  else ⟨(line :: h.lines).take capacity, true⟩

-- Add a line that was typed, unless it is blank.
def addTyped (h : History) (line : String) : History :=
  if Text.trim line = "" then h else h.add line

private def mark : String := "#V2"

private def escape (cs : List Char) : List Char :=
  cs.flatMap fun c => if c = '\\' then ['\\', '\\'] else if c = '\n' then ['\\', 'n'] else [c]

private def unescape? : List Char → Option (List Char)
  | [] => some []
  | '\\' :: 'n' :: rest => (unescape? rest).map ('\n' :: ·)
  | '\\' :: '\\' :: rest => (unescape? rest).map ('\\' :: ·)
  | '\\' :: _ => none
  | c :: rest => (unescape? rest).map (c :: ·)

-- A line that is not escaped well stands for itself.
private def unescape (line : String) : String :=
  ((unescape? line.toList).map String.ofList).getD line

-- The history in a file.  Only under a mark of the format the lines are escaped.
def ofLines : List String → History
  | [] => {}
  | first :: rest =>
    let h : History :=
      if first = mark then rest.foldl (fun h line => h.add (unescape line)) {}
      else (first :: rest).foldl add {}
    { h with grown := false }

def ofText (text : String) : History :=
  ofLines (Text.lines text)

def toText (h : History) : String :=
  String.ofList <| (mark.toList ++ ['\n']) ++
    h.lines.reverse.flatMap fun line => escape line.toList ++ ['\n']

-- The history at a path; a file that cannot be read is none.
def load (w : World) (path : Option String) : History :=
  match path.map w.readText with
  | some (.ok text) => ofText text
  | _ => {}

-- Write a history that has grown, and make the directory of its file in any case.
def save (h : History) (w : World) (path : Option String) : World :=
  match path with
  | none => w
  | some path =>
    let disk := w.disk.makeParents path
    { w with
      disk := if h.grown then disk.writeFile path false (Text.encodeUtf8 h.toText) else disk }

end History

end CommandShell.CommandLine
