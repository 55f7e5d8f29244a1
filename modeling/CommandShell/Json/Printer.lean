import CommandShell.Json.Value
import CommandShell.Number.Shortest

namespace CommandShell.Json

private def zeros (count : Nat) : List Char := List.replicate count '0'

private def hexPair (n : Nat) : List Char :=
  Nat.toDigits 16 (n / 16) ++ Nat.toDigits 16 (n % 16)

private def exponentText (e : Int) : List Char :=
  'e' :: (if 0 < e then ['+'] else []) ++ (toString e).toList

-- A positive finite magnitude: positional with at least one decimal while the leading digit
-- stands between `10 ^ -5` and `10 ^ 15`, in exponent form beyond.
def magnitudeText (bits : Nat) : List Char :=
  let (n, k) := Number.shortestDecimal bits
  let digits := Nat.toDigits 10 n
  let point : Int := digits.length + k
  if 0 ≤ k ∧ point ≤ 16 then digits ++ zeros k.toNat ++ ['.', '0']
  else if 0 < point ∧ point ≤ 16 then
    digits.take point.toNat ++ '.' :: digits.drop point.toNat
  else if -5 < point ∧ point ≤ 0 then '0' :: '.' :: zeros (-point).toNat ++ digits
  else
    let exponent := exponentText (point - 1)
    match digits with
    | d :: [] => d :: exponent
    | d :: more => d :: '.' :: more ++ exponent
    | [] => exponent

namespace Number

def text : Number → List Char
  | integer n => (toString n).toList
  | double x =>
    if !x.isFinite then "null".toList
    else
      let magnitude := if x.magnitude = 0 then ['0', '.', '0'] else magnitudeText x.magnitude
      if x.negative then '-' :: magnitude else magnitude

end Number

-- Quotes, backslashes and control characters are escaped, nothing else.
def escapeChar (c : Char) : List Char :=
  match c with
  | '"' => ['\\', '"']
  | '\\' => ['\\', '\\']
  | '\n' => ['\\', 'n']
  | '\r' => ['\\', 'r']
  | '\t' => ['\\', 't']
  | '\x08' => ['\\', 'b']
  | '\x0c' => ['\\', 'f']
  | c => if c.toNat < 0x20 then '\\' :: 'u' :: '0' :: '0' :: hexPair c.toNat else [c]

def stringText (s : String) : List Char :=
  '"' :: s.toList.flatMap escapeChar ++ ['"']

-- Items between brackets, separated by commas.
def separated (items : List (List Char)) : List Char :=
  (items.intersperse [',']).flatten

mutual

def compactText : Value → List Char
  | .null => "null".toList
  | .bool true => "true".toList
  | .bool false => "false".toList
  | .number n => n.text
  | .string s => stringText s
  | .array items => '[' :: separated (compactItems items) ++ [']']
  | .object entries => '\x7b' :: separated (compactEntries entries) ++ ['\x7d']

def compactItems : List Value → List (List Char)
  | [] => []
  | v :: rest => compactText v :: compactItems rest

def compactEntries : List (String × Value) → List (List Char)
  | [] => []
  | (k, v) :: rest => (stringText k ++ ':' :: compactText v) :: compactEntries rest

end

private def newLine (indent : Nat) : List Char := '\n' :: List.replicate indent ' '

-- Items on lines of their own, or nothing between the brackets.
private def onLines (indent : Nat) (first last : Char) (items : List (List Char)) : List Char :=
  if items.isEmpty then [first, last]
  else first :: separated (items.map (newLine (indent + 2) ++ ·)) ++ newLine indent ++ [last]

mutual

def prettyText (indent : Nat) : Value → List Char
  | .array items => onLines indent '[' ']' (prettyItems (indent + 2) items)
  | .object entries => onLines indent '\x7b' '\x7d' (prettyEntries (indent + 2) entries)
  | .null => compactText .null
  | .bool b => compactText (.bool b)
  | .number n => n.text
  | .string s => stringText s

def prettyItems (indent : Nat) : List Value → List (List Char)
  | [] => []
  | v :: rest => prettyText indent v :: prettyItems indent rest

def prettyEntries (indent : Nat) : List (String × Value) → List (List Char)
  | [] => []
  | (k, v) :: rest =>
    (stringText k ++ ':' :: ' ' :: prettyText indent v) :: prettyEntries indent rest

end

namespace Value

def compact (v : Value) : String := String.ofList (compactText v)

def pretty (v : Value) : String := String.ofList (prettyText 0 v)

-- Strings as they are, everything else on one line.
def plain (v : Value) : String :=
  match v with
  | string s => s
  | v => v.compact

end Value

end CommandShell.Json
