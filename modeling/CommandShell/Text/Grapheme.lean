import CommandShell.Text.GraphemeClass

namespace CommandShell.Text

-- What the characters before a place say about the next one.  `flag` holds after the first half
-- of a flag, `picture` after a pictograph that marks and one joiner may follow.  `conjunct` is set
-- after a consonant and its marks and tells whether a linker is among them.
structure Trail where
  last : GraphemeClass
  flag : Bool
  picture : Bool
  conjunct : Option Bool
deriving DecidableEq, Repr

namespace Trail

private def conjunctAfter (before : Option Bool) (kind : GraphemeClass) (c : Char) : Option Bool :=
  if kind = .consonant then some false
  else if isConjunctLinker c then before.map fun _ => true
  else if kind = .joiner ∨ (kind = .extender ∧ c ≠ '\u200c') then before
  else none

-- The trail of a character on its own.
def start (c : Char) : Trail :=
  let kind := GraphemeClass.ofChar c
  ⟨kind, kind = .regional, kind = .pictograph, conjunctAfter none kind c⟩

def push (t : Trail) (c : Char) : Trail :=
  let kind := GraphemeClass.ofChar c
  { last := kind
    flag := kind = .regional && !t.flag
    picture := kind = .pictograph ||
      ((kind = .extender || kind = .joiner) && t.picture && t.last ≠ .joiner)
    conjunct := conjunctAfter t.conjunct kind c }

-- A character of this class belongs to the ones before.
def joins (t : Trail) (next : GraphemeClass) : Bool :=
  match t.last, next with
  | .carriageReturn, .lineFeed => true
  | .carriageReturn, _ | .lineFeed, _ | .control, _ => false
  | _, .carriageReturn | _, .lineFeed | _, .control => false
  | .leadingJamo, .leadingJamo | .leadingJamo, .vowelJamo => true
  | .leadingJamo, .openSyllable | .leadingJamo, .closedSyllable => true
  | .openSyllable, .vowelJamo | .vowelJamo, .vowelJamo => true
  | .openSyllable, .trailingJamo | .vowelJamo, .trailingJamo => true
  | .closedSyllable, .trailingJamo | .trailingJamo, .trailingJamo => true
  | _, .extender | _, .joiner | _, .spacingMark => true
  | .prefixed, _ => true
  | _, .consonant => t.conjunct = some true
  | .joiner, .pictograph => t.picture
  | .regional, .regional => t.flag
  | _, _ => false

end Trail

-- The clusters of a text from a place on, where `cluster` is what came before it, backwards.
def graphemesFrom (t : Trail) (cluster : List Char) : List Char → List (List Char)
  | [] => [cluster.reverse]
  | c :: cs =>
    if t.joins (GraphemeClass.ofChar c) then graphemesFrom (t.push c) (c :: cluster) cs
    else cluster.reverse :: graphemesFrom (t.push c) [c] cs

-- The clusters of a text that are seen as one character each.
def graphemes : List Char → List (List Char)
  | [] => []
  | c :: cs => graphemesFrom (.start c) [c] cs

end CommandShell.Text
