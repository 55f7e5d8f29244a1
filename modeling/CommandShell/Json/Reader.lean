import CommandShell.Json.Lexer

namespace CommandShell.Json

-- A container that is still open, with its contents so far, the latest first.
inductive Frame where
  | array (items : List Value)
  | object (entries : List (String × Value)) (key : String)

-- What may come next.
inductive Expected where
  | value
  | valueOrClose
  | key
  | keyOrClose
  | colon
  -- after a value: a comma, the end of its container, or the end of the text
  | next
deriving DecidableEq

-- Containers may be nested this deep.
def depthLimit : Nat := 127

structure Reading where
  expected : Expected := .value
  frames : List Frame := []
  result : Option Value := none

namespace Reading

-- A value is complete: it goes into the innermost container, or is the result.
def put (r : Reading) (v : Value) : Reading :=
  match r.frames with
  | [] => { r with expected := .next, result := some v }
  | .array items :: outer => { r with expected := .next, frames := .array (v :: items) :: outer }
  | .object entries key :: outer =>
    { r with expected := .next, frames := .object ((key, v) :: entries) key :: outer }

def enter (r : Reading) (frame : Frame) (expected : Expected) : Option Reading :=
  if r.frames.length < depthLimit then some { r with expected, frames := frame :: r.frames }
  else none

def take (r : Reading) (t : Token) : Option Reading :=
  match r.expected, t, r.frames with
  | .value, .scalar v, _ | .valueOrClose, .scalar v, _ => some (r.put v)
  | .value, .openArray, _ | .valueOrClose, .openArray, _ => r.enter (.array []) .valueOrClose
  | .value, .openObject, _ | .valueOrClose, .openObject, _ => r.enter (.object [] "") .keyOrClose
  | .valueOrClose, .closeArray, .array items :: outer
  | .next, .closeArray, .array items :: outer =>
    some (put { r with frames := outer } (.array items.reverse))
  | .keyOrClose, .closeObject, .object entries _ :: outer
  | .next, .closeObject, .object entries _ :: outer =>
    some (put { r with frames := outer } (.ofEntries entries.reverse))
  | .key, .scalar (.string key), .object entries _ :: outer
  | .keyOrClose, .scalar (.string key), .object entries _ :: outer =>
    some { r with expected := .colon, frames := .object entries key :: outer }
  | .colon, .colon, _ => some { r with expected := .value }
  | .next, .comma, .array _ :: _ => some { r with expected := .value }
  | .next, .comma, .object _ _ :: _ => some { r with expected := .key }
  | _, _, _ => none

end Reading

-- Read one value that takes up the whole text.
def parse? (text : String) : Option Value := do
  let reading ← (← tokens? text).foldlM Reading.take ({} : Reading)
  if reading.frames.isEmpty then reading.result else none

end CommandShell.Json
