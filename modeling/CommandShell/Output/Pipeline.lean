import CommandShell.Output.Filter
import CommandShell.Output.Format
import CommandShell.Output.Writer

namespace CommandShell.Output

-- Whether all stages are sound.  The first failure is kept until it is reported.
structure Status where
  failed : Bool := false
  failure : Option Failure := none
deriving DecidableEq, Repr

namespace Status

def fail (s : Status) (e : Failure) : Status :=
  if s.failed then s else ⟨true, some e⟩

-- A filter ended.  That nothing it sends is read any more is no failure of its own.
def filterEnded (s : Status) : Option Failure → Status
  | none => s
  | some .outputClosed => s
  | some e => s.fail e

end Status

-- Filters, the first one outermost, and at the bottom the formatter with its writer.  A stage
-- that ended has no state.
def Stages (σ φ : Type) : Nat → Type
  | 0 => Option φ × Writer
  | depth + 1 => Option σ × Stages σ φ depth

namespace Stages

variable {σ φ : Type}

-- The first stage will not read what is sent to it.  A formatter reads to the end.
def isGone : {depth : Nat} → Stages σ φ depth → Bool
  | 0, _ => false
  | _ + 1, (state, _) => state.isNone

def writer : {depth : Nat} → Stages σ φ depth → Writer
  | 0, (_, writer) => writer
  | _ + 1, (_, rest) => rest.writer

variable (filter : Behaviour Token σ) (format : Behaviour String φ)

-- A formatter that ends well flushes the writer.
def formatEnded (failure : Option Failure) (writer : Writer) (status : Status) : Status :=
  match failure.or writer.flush with
  | some e => status.fail e
  | none => status

-- Carry out what a formatter does.
def runFormat {ψ : Type} (r : Reaction String ψ) (writer : Writer) (status : Status) :
    (Option ψ × Writer) × Status :=
  match r.run Writer.write writer with
  | (writer, .inl state) => ((some state, writer), status)
  | (writer, .inr failure) => ((none, writer), formatEnded failure writer status)

-- Carry out what a filter does in front of other stages.  Nothing is accepted once a stage failed
-- or the next one has ended.
def runFilter {ψ : Type} {depth : Nat}
    (accept : Token → Stages σ φ depth × Status → Stages σ φ depth × Status)
    (r : Reaction Token ψ) (rest : Stages σ φ depth) (status : Status) :
    (Option ψ × Stages σ φ depth) × Status :=
  let put (t : Token) (below : Stages σ φ depth × Status) :=
    if below.2.failed || below.1.isGone then (below, some Failure.outputClosed)
    else (accept t below, none)
  match r.run put (rest, status) with
  | ((rest, status), .inl state) => ((some state, rest), status)
  | ((rest, status), .inr failure) => ((none, rest), status.filterEnded failure)

-- Hand a token to the first stage; one that ended drops it.
def accept : {depth : Nat} → Token → Stages σ φ depth × Status → Stages σ φ depth × Status
  | 0, t, ((some state, writer), status) => runFormat (format.onToken state t) writer status
  | 0, _, ((none, writer), status) => ((none, writer), status)
  | _ + 1, t, ((some state, rest), status) =>
    runFilter accept (filter.onToken state t) rest status
  | _ + 1, _, ((none, rest), status) => ((none, rest), status)

-- End the input of every stage, the first one first.
def finish : {depth : Nat} → Stages σ φ depth × Status → Stages σ φ depth × Status
  | 0, ((some state, writer), status) =>
    let ((_, writer), status) := runFormat (format.onEnd state) writer status
    ((none, writer), status)
  | 0, ((none, writer), status) => ((none, writer), status)
  | _ + 1, ((some state, rest), status) =>
    let ((_, rest), status) := runFilter (accept filter format) (filter.onEnd state) rest status
    let (rest, status) := finish (rest, status)
    ((none, rest), status)
  | _ + 1, ((none, rest), status) =>
    let (rest, status) := finish (rest, status)
    ((none, rest), status)

-- Let all stages run to where they wait for their first token.
def start (last : Reaction String φ) (writer : Writer) :
    (filters : List (Reaction Token σ)) → Stages σ φ filters.length × Status
  | [] => runFormat last writer {}
  | first :: filters =>
    let (rest, status) := start last writer filters
    runFilter (accept filter format) first rest status

end Stages

-- The stages that a command's output runs through, open until it is closed.
structure Pipeline where
  depth : Nat
  stages : Stages FilterState FormatState depth
  status : Status
  ended : Bool := false

namespace Pipeline

def start (filters : List Filter) (format : Format) (writer : Writer) : Pipeline :=
  let (stages, status) := Stages.start FilterState.behaviour FormatState.behaviour format.start
    writer (filters.map Filter.start)
  ⟨_, stages, status, false⟩

def isFailed (p : Pipeline) : Bool := p.status.failed

-- Nothing that is written from now on will be read.
def isClosed (p : Pipeline) : Bool := p.isFailed || p.stages.isGone

def write (p : Pipeline) (t : Token) : Pipeline :=
  if p.ended || p.isClosed then p
  else
    let (stages, status) := Stages.accept FilterState.behaviour FormatState.behaviour t
      (p.stages, p.status)
    { p with stages, status }

-- Write a value as its tokens.
def writeTree (p : Pipeline) (name : Option String) (v : Json.Value) : Pipeline :=
  (tokensOf name v).foldl write p

def fail (p : Pipeline) (e : Failure) : Pipeline := { p with status := p.status.fail e }

-- End the output and report the first failure, once.
def close (p : Pipeline) : Pipeline × Option Failure :=
  let (stages, status) :=
    if p.ended then (p.stages, p.status)
    else Stages.finish FilterState.behaviour FormatState.behaviour (p.stages, p.status)
  ({ p with stages, status := { status with failure := none }, ended := true }, status.failure)

def bytes (p : Pipeline) : List UInt8 := p.stages.writer.bytes

end Pipeline

end CommandShell.Output
