import CommandShell.Json.Printer
import CommandShell.Output.Assembler
import CommandShell.Output.Reaction
import CommandShell.Text.LetterCase
import CommandShell.Text.Search

namespace CommandShell.Output

-- A filter with its options.
inductive Filter where
  | limit (count : Nat)
  | grep (pattern : String) (ignoreCase invert : Bool)
  | other (stage : Stage Token)

-- How far a filter got: the records still to pass, the record being read.
inductive FilterState where
  | limit (left : Nat) (assembler : Assembler)
  | grep (pattern : String) (ignoreCase invert : Bool) (assembler : Assembler)
  | other (memory : Memory) (behaviour : Behaviour Token Memory)

namespace Record

-- What a record is matched against.
def text (r : Record) : String :=
  match r.name with
  | some name => name ++ ": " ++ r.value.plain
  | none => r.value.plain

-- Whether the text of a record contains the pattern.
def contains (r : Record) (pattern : String) (ignoreCase : Bool) : Bool :=
  if ignoreCase then Text.contains (Text.lower r.text) (Text.lower pattern)
  else Text.contains r.text pattern

end Record

namespace FilterState

-- Nothing more is read once nothing more would pass.
def ready (s : FilterState) : Reaction Token FilterState :=
  match s with
  | limit 0 _ => .stop none
  | s => .await s

def onToken (s : FilterState) (t : Token) : Reaction Token FilterState :=
  match s with
  | limit left assembler =>
    let (assembler, record) := assembler.push t
    .emitAll [t] (limit (if record.isSome then left - 1 else left) assembler).ready
  | grep pattern ignoreCase invert assembler =>
    let (assembler, record) := assembler.push t
    let kept := match record with
      | some r => if r.contains pattern ignoreCase ≠ invert then tokensOf r.name r.value else []
      | none => []
    .emitAll kept (.await (.grep pattern ignoreCase invert assembler))
  | other memory behaviour => (behaviour.onToken memory t).map (other · behaviour)

def onEnd (s : FilterState) : Reaction Token Empty :=
  match s with
  | limit _ _ | grep _ _ _ _ => .stop none
  | other memory behaviour => behaviour.onEnd memory

def behaviour : Behaviour Token FilterState := ⟨onToken, onEnd⟩

end FilterState

namespace Filter

def start : Filter → Reaction Token FilterState
  | limit count => (FilterState.limit count .empty).ready
  | grep pattern ignoreCase invert => .await (.grep pattern ignoreCase invert .empty)
  | other stage => stage.start.map (FilterState.other · stage.behaviour)

end Filter

end CommandShell.Output
