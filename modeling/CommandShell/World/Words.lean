namespace CommandShell.World

-- Where reading the words of a command line stands: between words, in a comment, in a word, after
-- a backslash, inside quotes, after a backslash inside quotes.
inductive WordMode where
  | gap
  | comment
  | word
  | escaped
  | singleQuoted
  | doubleQuoted
  | doubleEscaped
deriving DecidableEq, Repr

private def isGap (c : Char) : Bool := c = ' ' || c = '\t' || c = '\n'

-- The mode that a character leads to outside quotes, and what it adds to a word.
private def enterWord (c : Char) : WordMode × List Char :=
  match c with
  | '\'' => (.singleQuoted, [])
  | '"' => (.doubleQuoted, [])
  | '\\' => (.escaped, [])
  | c => (.word, [c])

-- After a backslash inside quotes only some characters lose it.
private def unescapeQuoted (c : Char) : List Char :=
  if c = '\n' then []
  else if c ∈ ['$', '\x60', '"', '\\'] then [c]
  else ['\\', c]

-- The words from a mode on, where `word` is what was read of the current one.
def wordsFrom (mode : WordMode) (word : List Char) : List Char → Option (List (List Char))
  | [] =>
    match mode with
    | .gap | .comment => some []
    | .word => some [word]
    | _ => none
  | c :: cs =>
    match mode with
    | .gap =>
      if isGap c then wordsFrom .gap [] cs
      else if c = '#' then wordsFrom .comment [] cs
      else wordsFrom (enterWord c).1 (enterWord c).2 cs
    | .comment => wordsFrom (if c = '\n' then .gap else .comment) [] cs
    | .word =>
      if isGap c then (wordsFrom .gap [] cs).map (word :: ·)
      else wordsFrom (enterWord c).1 (word ++ (enterWord c).2) cs
    | .escaped => wordsFrom .word (word ++ if c = '\n' then [] else [c]) cs
    | .singleQuoted =>
      if c = '\'' then wordsFrom .word word cs else wordsFrom .singleQuoted (word ++ [c]) cs
    | .doubleQuoted =>
      if c = '"' then wordsFrom .word word cs
      else if c = '\\' then wordsFrom .doubleEscaped word cs
      else wordsFrom .doubleQuoted (word ++ [c]) cs
    | .doubleEscaped => wordsFrom .doubleQuoted (word ++ unescapeQuoted c) cs

-- The words of a program's command line.  Quotes that stay open and a backslash at the end make it
-- unreadable.
def splitWords (line : String) : Option (List String) :=
  (wordsFrom .gap [] line.toList).map (·.map String.ofList)

end CommandShell.World
