import CommandShell.Text.Quoted

namespace CommandShell.Text

-- What stands next in a byte sequence: a character, or bytes that start none.
inductive Chunk where
  | char (c : Char)
  | invalid (bytes : List UInt8)
deriving DecidableEq, Repr

-- The number of continuation bytes that a first byte asks for, and the range of the first of
-- them.
private def continuation (first : Nat) : Option (Nat × Nat × Nat) :=
  if first < 0xC2 then none
  else if first < 0xE0 then some (1, 0x80, 0xBF)
  else if first = 0xE0 then some (2, 0xA0, 0xBF)
  else if first = 0xED then some (2, 0x80, 0x9F)
  else if first < 0xF0 then some (2, 0x80, 0xBF)
  else if first = 0xF0 then some (3, 0x90, 0xBF)
  else if first < 0xF4 then some (3, 0x80, 0xBF)
  else if first = 0xF4 then some (3, 0x80, 0x8F)
  else none

-- Take `count` continuation bytes, the first between `low` and `high`.  The second part says
-- whether all were there.
private def takeContinuation : Nat → Nat → Nat → List UInt8 → List UInt8 × Bool
  | 0, _, _, _ => ([], true)
  | _ + 1, _, _, [] => ([], false)
  | count + 1, low, high, b :: bs =>
    if low ≤ b.toNat ∧ b.toNat ≤ high then
      let (more, complete) := takeContinuation count 0x80 0xBF bs
      (b :: more, complete)
    else ([], false)

private def firstBits (first count : Nat) : Nat :=
  first % (if count = 1 then 0x20 else if count = 2 then 0x10 else 0x08)

-- The first chunk of `b :: bs` and the number of bytes of `bs` in it.  What is invalid is as long
-- as it could still start a character.
private def chunk (b : UInt8) (bs : List UInt8) : Chunk × Nat :=
  if b.toNat < 0x80 then (.char (Char.ofNat b.toNat), 0)
  else
    match continuation b.toNat with
    | none => (.invalid [b], 0)
    | some (count, low, high) =>
      let (more, complete) := takeContinuation count low high bs
      if complete then
        let code := more.foldl (fun n c => n * 0x40 + c.toNat % 0x40) (firstBits b.toNat count)
        (.char (Char.ofNat code), more.length)
      else (.invalid (b :: more), more.length)

-- Split bytes into characters and what is between them.
def chunks : List UInt8 → List Chunk
  | [] => []
  | b :: bs =>
    let (first, more) := chunk b bs
    first :: chunks (bs.drop more)
termination_by bytes => bytes.length

-- The text of bytes that are the encoding of one.
def decodeUtf8? (bytes : List UInt8) : Option String :=
  (String.ofList ·) <$> (chunks bytes).mapM fun
    | .char c => some c
    | .invalid _ => none

-- The text of any bytes; what is no character is replaced.
def decodeLossy (bytes : List UInt8) : String :=
  String.ofList <| (chunks bytes).map fun
    | .char c => c
    | .invalid _ => '\ufffd'

def encodeUtf8 (s : String) : List UInt8 := s.toUTF8.toList

-- Bytes between double quotes: as `quoted` where they form characters, with single quotes
-- escaped too, and byte by byte where they do not.
def quotedBytes (bytes : List UInt8) : String :=
  let body := (chunks bytes).flatMap fun
    | .char '\'' => ['\\', '\'']
    | .char c => quoteChar c
    | .invalid bytes => bytes.flatMap quoteByte
  String.ofList ('"' :: body ++ ['"'])

end CommandShell.Text
