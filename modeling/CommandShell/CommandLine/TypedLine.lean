import CommandShell.Text.Bytes
import CommandShell.Text.Grapheme

namespace CommandShell.CommandLine

-- A line as it is being typed: what stands there, backwards, and the sizes of its clusters of
-- characters, the last one first.
structure Typed where
  text : List Char := []
  sizes : List Nat := []
deriving DecidableEq, Repr

namespace Typed

-- Take bytes off the end of a text that is given backwards, if they are whole characters.
def erase? (size : Nat) : List Char → Option (List Char)
  | [] => if size = 0 then some [] else none
  | c :: cs =>
    if size = 0 then some (c :: cs)
    else if c.utf8Size ≤ size then erase? (size - c.utf8Size) cs
    else none

-- A backspace takes back the cluster before it.  Sizes are kept in one byte each, so of a long
-- cluster only the end goes.
def type? (t : Typed) (cluster : List Char) : Option Typed :=
  if cluster = ['\x08'] then
    match t.sizes with
    | [] => some t
    | size :: sizes => (erase? size t.text).map (⟨·, sizes⟩)
  else some ⟨cluster.reverse ++ t.text, Text.width cluster % 256 :: t.sizes⟩

end Typed

-- A typed line with its backspaces carried out, unless one would cut a character in two.
def typedLine? (line : String) : Option String :=
  ((Text.graphemes line.toList).foldlM Typed.type? {}).map fun t => String.ofList t.text.reverse

end CommandShell.CommandLine
