import CommandShell.Number.Binary

namespace CommandShell.Binding

-- Widths of whole numbers in bits; `word` numbers count things in memory and have 64.
inductive Width where
  | bits8
  | bits16
  | bits32
  | bits64
  | word
deriving DecidableEq, Repr

namespace Width

def bits : Width → Nat
  | bits8 => 8
  | bits16 => 16
  | bits32 => 32
  | bits64 | word => 64

def label : Width → String
  | bits8 => "8"
  | bits16 => "16"
  | bits32 => "32"
  | bits64 => "64"
  | word => "size"

end Width

inductive ScalarType where
  | text
  | path
  | bool
  | single
  | double
  | integer (signed : Bool) (width : Width)
deriving DecidableEq, Repr

namespace ScalarType

def label : ScalarType → String
  | text => "string"
  | path => "path"
  | bool => "bool"
  | single => "f32"
  | double => "f64"
  | integer signed width => (if signed then "i" else "u") ++ width.label

end ScalarType

-- Least and greatest number of an integer type.
def minInteger (signed : Bool) (width : Width) : Int :=
  if signed then -(Nat.pow 2 (width.bits - 1) : Int) else 0

def maxInteger (signed : Bool) (width : Width) : Int :=
  (Nat.pow 2 (if signed then width.bits - 1 else width.bits) : Int) - 1

-- Single-precision magnitudes are bit patterns too.
inductive Scalar where
  | text (s : String)
  | bool (b : Bool)
  | single (negative : Bool) (magnitude : Nat)
  | double (x : Number.Double)
  | integer (n : Int)
deriving DecidableEq, Repr

namespace ScalarType

-- The value of a field that was not given.
def initial : ScalarType → Scalar
  | text | path => .text ""
  | bool => .bool false
  | single => .single false 0
  | double => .double ⟨false, 0⟩
  | integer _ _ => .integer 0

end ScalarType

-- How many values a field holds.
inductive Arity where
  | one
  | optional
  | many
deriving DecidableEq, Repr

structure FieldType where
  arity : Arity
  scalar : ScalarType
deriving DecidableEq, Repr

-- How a field takes values: from the option alone, one value, or every value given.
inductive Shape where
  | flag
  | scalar
  | list
deriving DecidableEq, Repr

namespace FieldType

def shape (t : FieldType) : Shape :=
  match t.arity, t.scalar with
  | .one, .bool => .flag
  | .many, _ => .list
  | _, _ => .scalar

def label (t : FieldType) : String := t.scalar.label

end FieldType

-- What a field holds.
inductive Slot where
  | one (v : Scalar)
  | optional (v : Option Scalar)
  | many (vs : List Scalar)
deriving DecidableEq, Repr

namespace FieldType

def initial (t : FieldType) : Slot :=
  match t.arity with
  | .one => .one t.scalar.initial
  | .optional => .optional none
  | .many => .many []

end FieldType

end CommandShell.Binding
