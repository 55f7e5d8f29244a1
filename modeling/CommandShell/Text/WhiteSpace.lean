import CommandShell.Text.CodeRange

namespace CommandShell.Text

private def whiteSpaces : CodeRanges := #[
  (0x9, 0xD), (0x20, 0x20), (0x85, 0x85), (0xA0, 0xA0), (0x1680, 0x1680), (0x2000, 0x200A),
  (0x2028, 0x2029), (0x202F, 0x202F), (0x205F, 0x205F), (0x3000, 0x3000)]

-- White space of every script, line breaks included.
def isWhiteSpace (c : Char) : Bool :=
  whiteSpaces.contains c

def trimStart (cs : List Char) : List Char :=
  cs.dropWhile isWhiteSpace

def trimEnd (cs : List Char) : List Char :=
  (cs.reverse.dropWhile isWhiteSpace).reverse

def trim (s : String) : String :=
  String.ofList (trimEnd (trimStart s.toList))

end CommandShell.Text
