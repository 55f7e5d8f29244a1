namespace CommandShell.Script

-- Byte range `[start, stop)` of a source text.
structure Span where
  start : Nat
  stop : Nat
deriving DecidableEq, Repr, Inhabited

namespace Span

def join (a b : Span) : Span :=
  ⟨min a.start b.start, max a.stop b.stop⟩

end Span

inductive TokenKind where
  | command
  | separator
  | redirection
  | shellRedirection
  | fileRedirection
  | option
  | bareArgument
  | singleQuoted
  | doubleQuoted
  | blockBegin
  | blockEnd
deriving DecidableEq, Repr, Inhabited

namespace TokenKind

-- Pieces that a value is put together from.
def isArgument : TokenKind → Bool
  | bareArgument | singleQuoted | doubleQuoted => true
  | _ => false

def isRedirection : TokenKind → Bool
  | redirection | shellRedirection | fileRedirection => true
  | _ => false

-- Separators and braces belong to no argument group.
def isStructural : TokenKind → Bool
  | separator | blockBegin | blockEnd => true
  | _ => false

-- What separators and braces are written with.
def signs : TokenKind → List Char
  | separator => ['\n', ';']
  | blockBegin => ['\x7b']
  | blockEnd => ['\x7d']
  | _ => []

-- Kinds of tokens that are written with quotes and escapes.
def isDecoded (kind : TokenKind) : Bool :=
  !kind.isStructural && kind ≠ shellRedirection

def label : TokenKind → String
  | command => "command"
  | separator => "separator"
  | redirection => "redirection"
  | shellRedirection => "shell redirection"
  | fileRedirection => "file redirection"
  | option => "option"
  | bareArgument => "argument"
  | singleQuoted => "single-quoted argument"
  | doubleQuoted => "double-quoted argument"
  | blockBegin => "block begin"
  | blockEnd => "block end"

end TokenKind

-- `group` numbers the words of the input: touching argument pieces share one number and
-- structural tokens have 0.  `node` is the entry that a command or redirection opens.
structure Token where
  kind : TokenKind
  text : String
  span : Span
  line : Nat
  group : Nat
  node : Option Nat := none
deriving DecidableEq, Repr, Inhabited

-- Token indices from `first` to `last`, both included.
structure Range where
  first : Nat
  last : Nat
deriving DecidableEq, Repr, Inhabited

namespace Range

def single (index : Nat) : Range := ⟨index, index⟩

def extendTo (r : Range) (index : Nat) : Range := { r with last := index }

def contains (r : Range) (index : Nat) : Bool :=
  r.first ≤ index && index ≤ r.last

end Range

-- One command or redirection.  `extent` runs from the token that opened it to the last token
-- attached to it.
structure Node where
  extent : Range
  args : Option Range := none
  redirections : List Range := []
  blocks : List Range := []
deriving DecidableEq, Repr, Inhabited

namespace Node

-- Index of the first argument token, 0 without arguments.
def firstArg (n : Node) : Nat := (n.args.map (·.first)).getD 0

end Node

end CommandShell.Script
