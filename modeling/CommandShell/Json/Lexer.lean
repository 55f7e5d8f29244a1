import CommandShell.Json.Value
import CommandShell.Number.Decimal

namespace CommandShell.Json

inductive Token where
  | openArray
  | closeArray
  | openObject
  | closeObject
  | comma
  | colon
  | scalar (v : Value)
deriving Repr

-- Put digits behind a significand as long as it stays below `2 ^ 64`; the second part counts the
-- digits that no longer fit.
def accumulate (significand : Nat) : List Char → Nat × Nat
  | [] => (significand, 0)
  | d :: ds =>
    let next := significand * 10 + (d.toNat - '0'.toNat)
    if next < Nat.pow 2 64 then accumulate next ds else (significand, ds.length + 1)

-- `10 ^ k` as a double.
private def power (k : Nat) : Nat := Number.Format.double.ofRatio (Nat.pow 10 k) 1

-- Divide by `10 ^ count`, at most `10 ^ 308` at a time, each step rounded.
private def divPower (x : Nat) : Nat → Nat → Nat
  | 0, _ => 0
  | steps + 1, count =>
    if count ≤ 308 then Number.Double.div x (power count)
    else if x = 0 then 0
    else divPower (Number.Double.div x (power 308)) steps (count - 308)

-- `significand * 10 ^ exponent` computed in doubles; `none` beyond their range.  Four divisions
-- by `10 ^ 308` leave nothing of a 64-bit significand.
def scale? (significand : Nat) (exponent : Int) : Option Nat :=
  let x := Number.Format.double.ofRatio significand 1
  if exponent < 0 then some (divPower x 5 (-exponent).toNat)
  else if 308 < exponent then if x = 0 then some 0 else none
  else
    let product := Number.Double.mul x (power exponent.toNat)
    if product < Number.Double.infinity then some product else none

-- An exponent part: its value, limited to 32 bits, and the rest.
private def exponentPart? (significand : Nat) (cs : List Char) : Option (Option Int × List Char) :=
  let (negative, body) := Number.sign cs
  let digits := body.takeWhile Char.isDigit
  let rest := body.dropWhile Char.isDigit
  let value := Number.digitsValue digits
  if digits.isEmpty then none
  else if value < Nat.pow 2 31 then some (some (if negative then -value else value), rest)
  else if significand ≠ 0 ∧ ¬negative then none
  else some (none, rest)

private def clampExponent (e : Int) : Int :=
  let limit : Int := Nat.pow 2 31
  max (-limit) (min e (limit - 1))

-- A number without its sign.
private def unsigned? (negative : Bool) (cs : List Char) : Option (Number × List Char) := do
  let whole := cs.takeWhile Char.isDigit
  let rest := cs.dropWhile Char.isDigit
  if whole.isEmpty ∨ (whole.head? = some '0' ∧ 1 < whole.length) then none
  let (significand, dropped) := accumulate 0 whole
  let double (significand : Nat) (exponent : Int) (rest : List Char) :
      Option (Number × List Char) := do
    return (.double ⟨negative, ← scale? significand exponent⟩, rest)
  let finish (significand : Nat) (exponent : Int) (rest : List Char) :
      Option (Number × List Char) :=
    match rest with
    | 'e' :: more | 'E' :: more => do
      match ← exponentPart? significand more with
      | (some e, rest) => double significand (clampExponent (exponent + e)) rest
      | (none, rest) => return (.double ⟨negative, 0⟩, rest)
    | _ => double significand exponent rest
  match rest with
  | '.' :: more =>
    let fraction := more.takeWhile Char.isDigit
    if fraction.isEmpty then none
    let (significand, lost) := accumulate significand fraction
    let exponent : Int := dropped - (fraction.length - lost : Nat)
    finish significand exponent (more.dropWhile Char.isDigit)
  | 'e' :: _ | 'E' :: _ => finish significand dropped rest
  | _ =>
    if dropped ≠ 0 then double significand dropped rest
    else if ¬negative then return (.integer significand, rest)
    else if significand = 0 ∨ Nat.pow 2 63 < significand then double significand 0 rest
    else return (.integer (-significand), rest)

def number? (cs : List Char) : Option (Number × List Char) :=
  match cs with
  | '-' :: rest => unsigned? true rest
  | _ => unsigned? false cs

private def hexValue? (c : Char) : Option Nat :=
  if c.isDigit then some (c.toNat - '0'.toNat)
  else if 'a' ≤ c.toLower ∧ c.toLower ≤ 'f' then some (c.toLower.toNat - 'a'.toNat + 10)
  else none

private def unit? (a b c d : Char) : Option Nat := do
  return (((← hexValue? a) * 16 + (← hexValue? b)) * 16 + (← hexValue? c)) * 16 + (← hexValue? d)

private def simpleEscape? (c : Char) : Option Char :=
  match c with
  | '"' => some '"'
  | '\\' => some '\\'
  | '/' => some '/'
  | 'b' => some '\x08'
  | 'f' => some '\x0c'
  | 'n' => some '\n'
  | 'r' => some '\r'
  | 't' => some '\t'
  | _ => none

-- The inside of a string and what follows its closing quote.  Control characters have to be
-- escaped, and escaped surrogates come in pairs.
def stringBody? : List Char → Option (List Char × List Char)
  | [] => none
  | '"' :: rest => some ([], rest)
  | '\\' :: 'u' :: a :: b :: c :: d :: rest => do
    let high ← unit? a b c d
    if high < 0xD800 ∨ 0xDFFF < high then
      let (body, rest) ← stringBody? rest
      return (Char.ofNat high :: body, rest)
    else if 0xDC00 ≤ high then none
    else
      match rest with
      | '\\' :: 'u' :: a :: b :: c :: d :: rest =>
        let low ← unit? a b c d
        if low < 0xDC00 ∨ 0xDFFF < low then none
        let (body, rest) ← stringBody? rest
        return (Char.ofNat (0x10000 + (high - 0xD800) * 0x400 + (low - 0xDC00)) :: body, rest)
      | _ => none
  | '\\' :: c :: rest => do
    let value ← simpleEscape? c
    let (body, rest) ← stringBody? rest
    return (value :: body, rest)
  | c :: rest =>
    if c = '\\' ∨ c.toNat < 0x20 then none
    else do
      let (body, rest) ← stringBody? rest
      return (c :: body, rest)
termination_by cs => cs.length

private def keyword? (cs : List Char) : Option (Value × List Char) :=
  match cs with
  | 'n' :: 'u' :: 'l' :: 'l' :: rest => some (.null, rest)
  | 't' :: 'r' :: 'u' :: 'e' :: rest => some (.bool true, rest)
  | 'f' :: 'a' :: 'l' :: 's' :: 'e' :: rest => some (.bool false, rest)
  | _ => none

private def isSpace (c : Char) : Bool := c = ' ' || c = '\n' || c = '\t' || c = '\r'

-- The token at the front of a text that does not start with space, and the rest.
def token? (c : Char) (cs : List Char) : Option (Token × List Char) :=
  match c with
  | '[' => some (.openArray, cs)
  | ']' => some (.closeArray, cs)
  | '\x7b' => some (.openObject, cs)
  | '\x7d' => some (.closeObject, cs)
  | ',' => some (.comma, cs)
  | ':' => some (.colon, cs)
  | '"' => (stringBody? cs).map fun (body, rest) => (.scalar (.string (String.ofList body)), rest)
  | _ =>
    if c.isAlpha then (keyword? (c :: cs)).map fun (v, rest) => (.scalar v, rest)
    else (number? (c :: cs)).map fun (n, rest) => (.scalar (.number n), rest)

-- A token that is a value of its own has no parts.
theorem scalar_cases {c : Char} {cs rest : List Char} {v : Value}
    (h : token? c cs = some (.scalar v, rest)) :
    v = .null ∨ (∃ b, v = .bool b) ∨ (∃ n, v = .number n) ∨ ∃ s, v = .string s := by
  unfold token? at h
  split at h
  case h_7 =>
    obtain ⟨⟨body, rest⟩, -, he⟩ := Option.map_eq_some_iff.mp h
    cases he
    exact .inr (.inr (.inr ⟨_, rfl⟩))
  case h_8 =>
    split at h
    · obtain ⟨⟨word, rest⟩, hk, he⟩ := Option.map_eq_some_iff.mp h
      cases he
      unfold keyword? at hk
      split at hk <;> cases hk
      · exact .inl rfl
      · exact .inr (.inl ⟨true, rfl⟩)
      · exact .inr (.inl ⟨false, rfl⟩)
    · obtain ⟨⟨n, rest⟩, -, he⟩ := Option.map_eq_some_iff.mp h
      cases he
      exact .inr (.inr (.inl ⟨n, rfl⟩))
  all_goals cases h

-- All tokens of a text.  Every token takes a character, so `fuel` may be the text's length.
def tokensFrom : Nat → List Char → Option (List Token)
  | _, [] => some []
  | 0, _ => none
  | fuel + 1, c :: cs =>
    if isSpace c then tokensFrom fuel cs
    else do
      let (token, rest) ← token? c cs
      return token :: (← tokensFrom fuel rest)

def tokens? (text : String) : Option (List Token) :=
  tokensFrom text.length text.toList

end CommandShell.Json
