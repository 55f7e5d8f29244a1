import CommandShell.Number.Binary

namespace CommandShell.Number

def digitsValue (ds : List Char) : Nat :=
  ds.foldl (fun n d => n * 10 + (d.toNat - '0'.toNat)) 0

-- Digits, perhaps a point and more digits: the digits before and after the point, and the rest.
-- There has to be a digit.
def mantissa? (cs : List Char) : Option (List Char × List Char × List Char) :=
  let whole := cs.takeWhile Char.isDigit
  match cs.dropWhile Char.isDigit with
  | '.' :: rest =>
    let fraction := rest.takeWhile Char.isDigit
    if whole.isEmpty && fraction.isEmpty then none
    else some (whole, fraction, rest.dropWhile Char.isDigit)
  | rest => if whole.isEmpty then none else some (whole, [], rest)

-- A sign, if there is one, and the rest.
def sign (cs : List Char) : Bool × List Char :=
  match cs with
  | '-' :: rest => (true, rest)
  | '+' :: rest => (false, rest)
  | _ => (false, cs)

-- An exponent after `e` up to the end of the text; no exponent counts as 0.
def exponent? (cs : List Char) : Option Int :=
  match cs with
  | [] => some 0
  | c :: rest =>
    if c = 'e' ∨ c = 'E' then
      let (negative, digits) := sign rest
      if digits.isEmpty ∨ ¬digits.all Char.isDigit then none
      else
        let value : Int := digitsValue digits
        some (if negative then -value else value)
    else none

namespace Double

-- Read a number in decimal notation, or one of the words for infinity and for no number.
def parse? (text : String) : Option Double :=
  let (negative, body) := sign text.toList
  let word := String.ofList (body.map Char.toLower)
  if word = "inf" ∨ word = "infinity" then some ⟨negative, infinity⟩
  else if word = "nan" then some nan
  else do
    let (whole, fraction, rest) ← mantissa? body
    let exponent ← exponent? rest
    return ofDecimal negative (digitsValue (whole ++ fraction)) (exponent - fraction.length)

end Double

end CommandShell.Number
