import CommandShell.Binding.Value
import CommandShell.Number.Decimal

namespace CommandShell.Binding

inductive CoercionCause where
  | malformed
  | outOfRange
  | notCountable
deriving DecidableEq, Repr

-- Why a text cannot be stored in a field of a type.
structure CoercionError where
  cause : CoercionCause
  type : ScalarType
deriving DecidableEq, Repr

namespace CoercionError

def message (e : CoercionError) : String :=
  match e.cause with
  | .malformed => "not a valid " ++ e.type.label
  | .outOfRange => "value out of range for " ++ e.type.label
  | .notCountable => e.type.label ++ " fields cannot be counted"

end CoercionError

-- The value of a digit in bases up to 36.
def digitValue? (radix : Nat) (c : Char) : Option Nat :=
  let value :=
    if c.isDigit then c.toNat - '0'.toNat
    else if c.isAlpha then c.toLower.toNat - 'a'.toNat + 10
    else radix
  if value < radix then some value else none

-- Digits are read into 127 bits, the first character at fault deciding the error.
def magnitude (radix : Nat) (value : Nat) : List Char → Except CoercionCause Nat
  | [] => .ok value
  | c :: cs =>
    match digitValue? radix c with
    | none => .error .malformed
    | some d =>
      let next := value * radix + d
      if next < Nat.pow 2 127 then magnitude radix next cs else .error .outOfRange

-- A radix prefix and the digits after it.
def radixOf (cs : List Char) : Nat × List Char :=
  match cs with
  | '0' :: 'x' :: rest | '0' :: 'X' :: rest => (16, rest)
  | '0' :: 'o' :: rest | '0' :: 'O' :: rest => (8, rest)
  | '0' :: 'b' :: rest | '0' :: 'B' :: rest => (2, rest)
  | _ => (10, cs)

-- An integer literal: an optional sign, an optional radix prefix, digits.
def integer (cs : List Char) : Except CoercionCause Int := do
  let (negative, body) := Number.sign cs
  let (radix, digits) := radixOf body
  if digits.isEmpty then throw .malformed
  let value ← magnitude radix 0 digits
  return if negative then -(value : Int) else value

def boolean? (s : String) : Option Bool :=
  let word := String.ofList (s.toList.map Char.toLower)
  if word = "true" ∨ word = "yes" ∨ word = "on" ∨ word = "1" then some true
  else if word = "false" ∨ word = "no" ∨ word = "off" ∨ word = "0" then some false
  else none

-- The greatest finite single-precision number as a double-precision magnitude.
def maxSingle : Nat :=
  let (num, den) := Number.Format.single.toRatio (Number.Format.single.infinity - 1)
  Number.Format.double.ofRatio num den

-- Round to single precision.
def toSingle (x : Number.Double) : Except CoercionCause Scalar :=
  if x.isNaN then .ok (.single x.negative (Number.Format.single.infinity + 1))
  else if ¬x.isFinite then .ok (.single x.negative Number.Format.single.infinity)
  else if maxSingle < x.magnitude then .error .outOfRange
  else
    let (num, den) := Number.Format.double.toRatio x.magnitude
    .ok (.single x.negative (Number.Format.single.ofRatio num den))

namespace ScalarType

def read (t : ScalarType) (s : String) : Except CoercionCause Scalar :=
  match t with
  | text | path => .ok (.text s)
  | bool =>
    match boolean? s with
    | some b => .ok (.bool b)
    | none => .error .malformed
  | double =>
    match Number.Double.parse? s with
    | some x => .ok (.double x)
    | none => .error .malformed
  | single =>
    match Number.Double.parse? s with
    | some x => toSingle x
    | none => .error .malformed
  | integer signed width => do
    let n ← Binding.integer s.toList
    if minInteger signed width ≤ n ∧ n ≤ maxInteger signed width then return .integer n
    else throw .outOfRange

-- The value that a text stands for in a field of this type.
def coerce (t : ScalarType) (s : String) : Except CoercionError Scalar :=
  (t.read s).mapError (⟨·, t⟩)

end ScalarType

namespace Slot

-- Take one value: it replaces the value there was, or goes to the end of a list.
def assign (t : ScalarType) (slot : Slot) (s : String) : Except CoercionError Slot := do
  let v ← t.coerce s
  return match slot with
    | one _ => .one v
    | optional _ => .optional (some v)
    | many vs => .many (vs ++ [v])

def setFlag (t : ScalarType) : Slot → Except CoercionError Slot
  | one (.bool _) => .ok (.one (.bool true))
  | _ => .error ⟨.notCountable, t⟩

-- Count up by one.
def increment (t : ScalarType) (slot : Slot) : Except CoercionError Slot :=
  match slot, t with
  | one (.integer n), .integer signed width =>
    if n < maxInteger signed width then .ok (.one (.integer (n + 1)))
    else .error ⟨.outOfRange, t⟩
  | _, _ => .error ⟨.notCountable, t⟩

def text (slot : Slot) : String :=
  match slot with
  | one (.text s) => s
  | _ => ""

def text? (slot : Slot) : Option String :=
  match slot with
  | one (.text s) | optional (some (.text s)) => some s
  | _ => none

def texts (slot : Slot) : List String :=
  match slot with
  | many vs => vs.filterMap fun v => match v with
    | .text s => some s
    | _ => none
  | _ => []

def flag (slot : Slot) : Bool :=
  match slot with
  | one (.bool b) => b
  | _ => false

def integer? (slot : Slot) : Option Int :=
  match slot with
  | one (.integer n) | optional (some (.integer n)) => some n
  | _ => none

def nat (slot : Slot) : Nat :=
  (slot.integer?.map Int.toNat).getD 0

end Slot

end CommandShell.Binding
