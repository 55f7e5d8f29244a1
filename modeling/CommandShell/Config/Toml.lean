namespace CommandShell.Config

-- Values of a configuration file.  A table in braces has a path before each value.
inductive TomlValue where
  | text (s : String)
  | integer (n : Int)
  | bool (b : Bool)
  | array (items : List TomlValue)
  | table (entries : List (List String × TomlValue))
deriving Repr

-- A line of a configuration file: a table begins, or a value is given.
inductive Statement where
  | header (path : List String)
  | assign (path : List String) (value : TomlValue)
deriving Repr

namespace Toml

def isBlank (c : Char) : Bool := c = ' ' || c = '\t'

-- Characters of comments and of literal text on one line.
def isPlain (c : Char) : Bool := c = '\t' || (0x20 ≤ c.toNat && c.toNat ≠ 0x7f)

def isBareKey (c : Char) : Bool := c.isAlphanum || c = '-' || c = '_'

def skipBlanks (cs : List Char) : List Char := cs.dropWhile isBlank

def newLine? : List Char → Option (List Char)
  | [] => some []
  | '\n' :: rest => some rest
  | '\r' :: '\n' :: rest => some rest
  | _ => none

-- What follows the end of a line, which may have blanks and a comment before it.
def lineEnd? (cs : List Char) : Option (List Char) :=
  match skipBlanks cs with
  | '#' :: rest => newLine? (rest.dropWhile isPlain)
  | rest => newLine? rest

-- Skip blanks, line ends and comments.
def skipSpace (comment : Bool) : List Char → List Char
  | [] => []
  | c :: cs =>
    if c = '\n' then skipSpace false cs
    else if c = '\r' ∧ cs.head? = some '\n' then skipSpace false cs
    else if comment then if isPlain c then skipSpace true cs else c :: cs
    else if c = '#' then skipSpace true cs
    else if isBlank c then skipSpace false cs
    else c :: cs

private def hexDigit? (c : Char) : Option Nat :=
  if c.isDigit then some (c.toNat - '0'.toNat)
  else if 'a' ≤ c ∧ c ≤ 'f' then some (c.toNat - 'a'.toNat + 10)
  else if 'A' ≤ c ∧ c ≤ 'F' then some (c.toNat - 'A'.toNat + 10)
  else none

private def codePoint? (digits : List Char) : Option Char := do
  let values ← digits.mapM hexDigit?
  let n := values.foldl (fun n d => n * 16 + d) 0
  if n.isValidChar then some (Char.ofNat n) else none

private def shortEscape? (c : Char) : Option Char :=
  match c with
  | 'b' => some '\x08'
  | 't' => some '\t'
  | 'n' => some '\n'
  | 'f' => some '\x0c'
  | 'r' => some '\r'
  | '"' => some '"'
  | '\\' => some '\\'
  | _ => none

-- What follows a backslash: the length of the escape and the character it stands for.
def escape? : List Char → Option (Nat × Char)
  | 'u' :: a :: b :: c :: d :: _ => (codePoint? [a, b, c, d]).map (5, ·)
  | 'U' :: a :: b :: c :: d :: e :: f :: g :: h :: _ =>
    (codePoint? [a, b, c, d, e, f, g, h]).map (9, ·)
  | c :: _ => (shortEscape? c).map (1, ·)
  | [] => none

private def prepend (c : Char) (r : List Char × List Char) : List Char × List Char :=
  (c :: r.1, r.2)

-- Text in double quotes up to the closing one, with `skip` characters of an escape still to drop.
def basic? (skip : Nat) : List Char → Option (List Char × List Char)
  | [] => none
  | c :: cs =>
    if 0 < skip then basic? (skip - 1) cs
    else if c = '"' then some ([], cs)
    else if c = '\\' then do
      let (length, c) ← escape? cs
      (basic? length cs).map (prepend c)
    else if isPlain c then (basic? 0 cs).map (prepend c)
    else none

def literal? : List Char → Option (List Char × List Char)
  | [] => none
  | c :: cs =>
    if c = '\'' then some ([], cs)
    else if isPlain c then (literal? cs).map (prepend c)
    else none

private def quotes (quote : Char) (count : Nat) (r : List Char × List Char) :
    List Char × List Char :=
  (List.replicate count quote ++ r.1, r.2)

-- Whether a backslash stands at the end of its line.
private def endsLine (cs : List Char) : Bool :=
  match skipBlanks cs with
  | '\n' :: _ | '\r' :: '\n' :: _ => true
  | _ => false

-- Text over several lines up to three quotes, which may have two more before them.  `seen` counts
-- the quotes just read; `skip` is as for one line; `trimming` drops space after a backslash at the
-- end of a line.
def multiLine? (quote : Char) (seen skip : Nat) (trimming : Bool) :
    List Char → Option (List Char × List Char)
  | [] => if 3 ≤ seen then some (List.replicate (seen - 3) quote, []) else none
  | c :: cs =>
    if 0 < skip then multiLine? quote 0 (skip - 1) false cs
    else if c = quote ∧ seen < 5 then multiLine? quote (seen + 1) 0 false cs
    else if 3 ≤ seen then some (List.replicate (seen - 3) quote, c :: cs)
    else if trimming ∧ (isBlank c ∨ c = '\n' ∨ (c = '\r' ∧ cs.head? = some '\n')) then
      multiLine? quote 0 0 true cs
    else
      Option.map (quotes quote seen) <|
        if c = '\\' ∧ quote = '"' then
          if endsLine cs then multiLine? quote 0 0 true cs
          else do
            let (length, c) ← escape? cs
            (multiLine? quote 0 length false cs).map (prepend c)
        else if c = '\n' then (multiLine? quote 0 0 false cs).map (prepend '\n')
        else if c = '\r' ∧ cs.head? = some '\n' then multiLine? quote 0 0 false cs
        else if isPlain c then (multiLine? quote 0 0 false cs).map (prepend c)
        else none

private def dropNewLine (cs : List Char) : List Char :=
  match cs with
  | '\n' :: rest | '\r' :: '\n' :: rest => rest
  | _ => cs

-- Text in quotes of any kind.
def text? : List Char → Option (String × List Char)
  | '"' :: '"' :: '"' :: rest => ofChars (multiLine? '"' 0 0 false (dropNewLine rest))
  | '\'' :: '\'' :: '\'' :: rest => ofChars (multiLine? '\'' 0 0 false (dropNewLine rest))
  | '"' :: rest => ofChars (basic? 0 rest)
  | '\'' :: rest => ofChars (literal? rest)
  | _ => none
where
  ofChars (r : Option (List Char × List Char)) : Option (String × List Char) :=
    r.map fun (cs, rest) => (String.ofList cs, rest)

-- Digits of a radix; an underscore may stand between two of them.
private def digits? (radix : Nat) (cs : List Char) : Option (List Nat) :=
  match cs with
  | [] => some []
  | '_' :: c :: rest => digits? radix (c :: rest) |>.filter fun _ => c ≠ '_'
  | c :: rest => do
    let d ← hexDigit? c
    if d < radix then return d :: (← digits? radix rest) else none

-- A whole number of 64 bits.  Only decimal numbers have a sign, and they start with no zero.
def integer? (cs : List Char) : Option (Int × List Char) := do
  let isDigit (c : Char) := c.isAlphanum || c = '_'
  let (negative, signed, body) := match cs with
    | '-' :: rest => (true, true, rest)
    | '+' :: rest => (false, true, rest)
    | _ => (false, false, cs)
  let word := body.takeWhile isDigit
  let (radix, digits) ← match word with
    | '0' :: 'x' :: ds => some (16, ds)
    | '0' :: 'o' :: ds => some (8, ds)
    | '0' :: 'b' :: ds => some (2, ds)
    | '0' :: _ :: _ => none
    | ds => some (10, ds)
  if digits.isEmpty ∨ digits.head? = some '_' ∨ (signed ∧ radix ≠ 10) then none
  let n := (← digits? radix digits).foldl (fun n d => n * radix + d) 0
  let value : Int := if negative then -n else n
  let limit : Int := Nat.pow 2 63
  if -limit ≤ value ∧ value < limit then some (value, body.dropWhile isDigit) else none

def key? (cs : List Char) : Option (String × List Char) :=
  match cs with
  | '"' :: rest => (basic? 0 rest).map fun (k, rest) => (String.ofList k, rest)
  | '\'' :: rest => (literal? rest).map fun (k, rest) => (String.ofList k, rest)
  | _ =>
    let k := cs.takeWhile isBareKey
    if k.isEmpty then none else some (String.ofList k, cs.dropWhile isBareKey)

-- Keys with dots between them.  Each part takes at least one character.
def path? : Nat → List Char → Option (List String × List Char)
  | 0, _ => none
  | fuel + 1, cs => do
    let (k, rest) ← key? (skipBlanks cs)
    match skipBlanks rest with
    | '.' :: rest =>
      let (path, rest) ← path? fuel rest
      return (k :: path, rest)
    | rest => return ([k], rest)

mutual

-- A value.  What is in brackets is shorter than the whole.
def value? : Nat → List Char → Option (TomlValue × List Char)
  | 0, _ => none
  | fuel + 1, cs =>
    match cs with
    | '[' :: rest => (items? fuel rest).map fun (vs, rest) => (.array vs, rest)
    | '\x7b' :: rest =>
      match skipBlanks rest with
      | '\x7d' :: rest => some (.table [], rest)
      | rest => (entries? fuel rest).map fun (es, rest) => (.table es, rest)
    | '"' :: _ | '\'' :: _ => (text? cs).map fun (s, rest) => (.text s, rest)
    | 't' :: 'r' :: 'u' :: 'e' :: rest => some (.bool true, rest)
    | 'f' :: 'a' :: 'l' :: 's' :: 'e' :: rest => some (.bool false, rest)
    | _ => (integer? cs).map fun (n, rest) => (.integer n, rest)

-- Items up to the closing bracket; a comma may follow the last one.
def items? : Nat → List Char → Option (List TomlValue × List Char)
  | 0, _ => none
  | fuel + 1, cs =>
    match skipSpace false cs with
    | ']' :: rest => some ([], rest)
    | cs => do
      let (v, rest) ← value? fuel cs
      match skipSpace false rest with
      | ']' :: rest => return ([v], rest)
      | ',' :: rest =>
        let (vs, rest) ← items? fuel rest
        return (v :: vs, rest)
      | _ => none

-- Entries up to the closing brace, on one line.
def entries? : Nat → List Char → Option (List (List String × TomlValue) × List Char)
  | 0, _ => none
  | fuel + 1, cs => do
    let (e, rest) ← entry? fuel cs
    match skipBlanks rest with
    | '\x7d' :: rest => return ([e], rest)
    | ',' :: rest =>
      let (es, rest) ← entries? fuel rest
      return (e :: es, rest)
    | _ => none

-- A path and its value.
def entry? : Nat → List Char → Option ((List String × TomlValue) × List Char)
  | 0, _ => none
  | fuel + 1, cs => do
    let (path, rest) ← path? (cs.length + 1) cs
    match rest with
    | '=' :: rest =>
      let (v, rest) ← value? fuel (skipBlanks rest)
      return ((path, v), rest)
    | _ => none

end

-- The statements of a file, each on lines of its own.  Tables in double brackets are not taken.
def statements? : Nat → List Char → Option (List Statement)
  | 0, _ => none
  | fuel + 1, cs =>
    match skipBlanks cs with
    | [] => some []
    | '#' :: _ | '\n' :: _ | '\r' :: _ => do statements? fuel (← lineEnd? cs)
    | '[' :: rest => do
      let (path, rest) ← path? (rest.length + 1) rest
      match rest with
      | ']' :: rest => return .header path :: (← statements? fuel (← lineEnd? rest))
      | _ => none
    | cs => do
      let ((path, v), rest) ← entry? (2 * cs.length + 2) cs
      return .assign path v :: (← statements? fuel (← lineEnd? rest))

-- The statements of a configuration file, which may start with a byte order mark.
def parse? (text : String) : Option (List Statement) :=
  let cs := match text.toList with
    | '\ufeff' :: rest => rest
    | cs => cs
  statements? (cs.length + 1) cs

end Toml

end CommandShell.Config
