import CommandShell.Failure
import CommandShell.Text.Utf8

namespace CommandShell.Output

-- Takes what a formatter writes.  One with limited room takes the bytes that fit and fails on the
-- rest, and it cannot be flushed when it is full.  The latest piece is the first.
structure Writer where
  room : Option Nat := none
  pieces : List (List UInt8) := []
deriving DecidableEq, Repr

namespace Writer

def unlimited : Writer := {}

def bytes (w : Writer) : List UInt8 := w.pieces.reverse.flatten

def write (text : String) (w : Writer) : Writer × Option Failure :=
  let piece := Text.encodeUtf8 text
  match w.room with
  | none => ({ w with pieces := piece :: w.pieces }, none)
  | some room =>
    if piece.length ≤ room then (⟨some (room - piece.length), piece :: w.pieces⟩, none)
    else (⟨some 0, piece.take room :: w.pieces⟩, some (.io "disk full"))

def flush (w : Writer) : Option Failure :=
  if w.room = some 0 then some (.io "flush failed") else none

end Writer

end CommandShell.Output
