import CommandShell.Script.Token
import CommandShell.Text.Bytes
import CommandShell.Text.Split

namespace CommandShell.Script

open Text (width floorBoundary slice)

def clamp (low high n : Nat) : Nat := max low (min n high)

-- A line of carets under the part of a span that lies on the line at `offset`.  Tabs before it
-- are kept so that the carets line up.
def caretLine (source : List Char) (caret : Span) (offset start stop : Nat) : List Char :=
  let pad := (slice source offset start).map fun c => if c = '\t' then '\t' else ' '
  let caretStop := floorBoundary source (clamp start stop caret.stop)
  pad ++ List.replicate (max 1 (slice source start caretStop).length) '^'

-- The lines of an excerpt at `offset`, with carets under the one that has byte `start`.
def underlined (source : List Char) (caret : Span) (start : Nat) (offset : Nat) :
    List (List Char) → List (List Char)
  | [] => []
  | line :: rest =>
    let stop := offset + width line
    let below := underlined source caret start (stop + 1) rest
    if offset ≤ start ∧ start ≤ stop then
      line :: caretLine source caret offset start stop :: below
    else line :: below

-- The lines of an excerpt of the source with carets under a span, and a message.  Spans may lie
-- anywhere; they are cut down to whole characters of the excerpt.
def render (source : String) (excerpt caret : Span) (message : String) : String :=
  let cs := source.toList
  let start := floorBoundary cs (min excerpt.start (width cs))
  let stop := floorBoundary cs (clamp start (width cs) excerpt.stop)
  let caretStart := floorBoundary cs (clamp start stop caret.start)
  let lines := underlined cs caret caretStart start (Text.splitAtChar '\n' (slice cs start stop))
  String.ofList ((lines ++ [message.toList]).flatMap (· ++ ['\n']))

-- Whole lines around the caret.
def renderLines (source : String) (caret : Span) (message : String) : String :=
  let cs := source.toList
  let start := floorBoundary cs (min caret.start (width cs))
  let stop := floorBoundary cs (clamp start (width cs) caret.stop)
  let before := (Text.takeBytes start cs).reverse.takeWhile (· ≠ '\n')
  let after := (Text.dropBytes stop cs).takeWhile (· ≠ '\n')
  render source ⟨start - width before, stop + width after⟩ caret message

end CommandShell.Script
