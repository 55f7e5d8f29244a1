import CommandShell.Json.Printer
import CommandShell.Output.Assembler
import CommandShell.Output.Reaction

namespace CommandShell.Output

-- How output is written down, with the options of the formatter.
inductive Format where
  | text
  | json (compact : Bool)
  | other (stage : Stage String)

-- Where a line of text begins: the open containers, innermost first, each with whether its children
-- are indented, and the spaces in front of a line.
structure Margin where
  opened : List Bool := []
  spaces : Nat := 0
deriving DecidableEq, Repr

namespace Margin

def line (m : Margin) (text : String) : String :=
  String.ofList (List.replicate m.spaces ' ') ++ text ++ "\n"

-- Open a container, with its label on a line of its own if it has one.
def enter (m : Margin) (label : Option String) : List String × Margin :=
  match label with
  | some label => ([m.line label], ⟨true :: m.opened, m.spaces + 2⟩)
  | none => ([], { m with opened := false :: m.opened })

-- An end without a beginning closes nothing.
def close (m : Margin) : Margin :=
  match m.opened with
  | true :: rest => ⟨rest, m.spaces - 2⟩
  | false :: rest => { m with opened := rest }
  | [] => m

end Margin

-- How far a formatter got.
inductive FormatState where
  | text (margin : Margin)
  | json (compact : Bool) (assembler : Assembler)
  | other (memory : Memory) (behaviour : Behaviour String Memory)

-- The label line of a container: none for one without a name that stands alone.
def containerLabel (name : Option String) (nested : Bool) : Option String :=
  match name with
  | some name => some (name ++ ":")
  | none => if nested then some "-" else none

def valueLine (name : Option String) (v : Json.Value) : String :=
  match name with
  | some name => name ++ ": " ++ v.plain
  | none => v.plain

-- What a token adds to the text, and the margin after it.
def textLine (m : Margin) : Token → List String × Margin
  | .object name | .array name => m.enter (containerLabel name (!m.opened.isEmpty))
  | .close => ([], m.close)
  | .value name v => ([m.line (valueLine name v)], m)
  | .endOfStream => ([], m)

namespace Record

-- A name makes a record an object with one entry.
def document (r : Record) : Json.Value :=
  match r.name with
  | some name => .object [(name, r.value)]
  | none => r.value

end Record

-- Write a document and a line end, then go on.  A failure to write the document is one of JSON.
def emitDocument {σ : Type} (compact : Bool) (r : Record) (last : Reaction String σ) :
    Reaction String σ :=
  let text := if compact then r.document.compact else r.document.pretty
  .emit text fun
    | none => .emitAll ["\n"] last
    | some (.io message) => .stop (some (.json message))
    | some refusal => .stop (some refusal)

namespace FormatState

def onToken (s : FormatState) (t : Token) : Reaction String FormatState :=
  match s with
  | text margin =>
    let (lines, margin) := textLine margin t
    .emitAll lines (.await (.text margin))
  | json compact assembler =>
    let (assembler, record) := assembler.push t
    let next := .await (.json compact assembler)
    match record with
    | some r => emitDocument compact r next
    | none => next
  | other memory behaviour => (behaviour.onToken memory t).map (other · behaviour)

def onEnd (s : FormatState) : Reaction String Empty :=
  match s with
  | json compact assembler =>
    match assembler.finish.2 with
    | some r => emitDocument compact r (.stop none)
    | none => .stop none
  | other memory behaviour => behaviour.onEnd memory
  | text _ => .stop none

def behaviour : Behaviour String FormatState := ⟨onToken, onEnd⟩

end FormatState

namespace Format

def start : Format → Reaction String FormatState
  | text => .await (.text {})
  | json compact => .await (.json compact .empty)
  | other stage => stage.start.map (FormatState.other · stage.behaviour)

end Format

end CommandShell.Output
