namespace CommandShell.Number

-- A binary floating-point format.  Finite magnitudes are `m * 2 ^ e` with `m < 2 ^ precision` and
-- `minExponent ≤ e`; `infinity` is the bit pattern of infinity, and every smaller pattern is that
-- of a finite magnitude, in the same order.
structure Format where
  precision : Nat
  minExponent : Int
  infinity : Nat
deriving DecidableEq, Repr

namespace Format

def double : Format := ⟨53, -1074, 0x7FF * Nat.pow 2 52⟩

def single : Format := ⟨24, -149, 0xFF * Nat.pow 2 23⟩

-- Bits between the sign and the fraction are worth this much.
def hidden (f : Format) : Nat := Nat.pow 2 (f.precision - 1)

-- The quotient rounded to the nearest whole number, a half to the even one.
def roundDiv (num den : Nat) : Nat :=
  let q := num / den
  let r := num % den
  if 2 * r < den then q else if den < 2 * r then q + 1 else q + q % 2

-- `num / (den * 2 ^ e)` as a fraction.
def scaled (num den : Nat) (e : Int) : Nat × Nat :=
  if 0 ≤ e then (num, den * Nat.pow 2 e.toNat) else (num * Nat.pow 2 (-e).toNat, den)

-- The exponent at which the quotient has `precision` digits, or the least exponent if that is
-- larger.
def exponentOf (f : Format) (num den : Nat) : Int :=
  let guess : Int := (num.log2 : Int) - den.log2 - f.precision
  let fits (e : Int) : Bool :=
    let (n, d) := scaled num den e
    n / d < Nat.pow 2 f.precision
  let e := if fits guess then guess else if fits (guess + 1) then guess + 1 else guess + 2
  max e f.minExponent

-- Bit pattern of the magnitude nearest to a quotient, ties to even.
def ofRatio (f : Format) (num den : Nat) : Nat :=
  if num = 0 then 0
  else
    let e := f.exponentOf num den
    let (n, d) := scaled num den e
    min ((e - f.minExponent).toNat * f.hidden + roundDiv n d) f.infinity

-- The magnitude of a finite bit pattern, as `m * 2 ^ e`.
def parts (f : Format) (bits : Nat) : Nat × Int :=
  let biased := bits / f.hidden
  let fraction := bits % f.hidden
  if biased = 0 then (fraction, f.minExponent)
  else (f.hidden + fraction, f.minExponent + (biased - 1 : Nat))

def toRatio (f : Format) (bits : Nat) : Nat × Nat :=
  let (m, e) := f.parts bits
  if 0 ≤ e then (m * Nat.pow 2 e.toNat, 1) else (m, Nat.pow 2 (-e).toNat)

end Format

-- A double-precision number: its sign and the bit pattern of its magnitude.
structure Double where
  negative : Bool
  magnitude : Nat
deriving DecidableEq, Repr, Inhabited

namespace Double

def infinity : Nat := Format.double.infinity

def isFinite (x : Double) : Bool := x.magnitude < infinity

def isNaN (x : Double) : Bool := infinity < x.magnitude

def nan : Double := ⟨false, infinity + Format.double.hidden / 2⟩

def toBits (x : Double) : Nat :=
  (if x.negative then Nat.pow 2 63 else 0) + x.magnitude

-- The number nearest to `num * 10 ^ exponent`.
def ofDecimal (negative : Bool) (num : Nat) (exponent : Int) : Double :=
  let digits := (Nat.toDigits 10 num).length
  let magnitude :=
    if num = 0 ∨ digits + exponent < -330 then 0
    else if 310 < exponent then infinity
    else if 0 ≤ exponent then Format.double.ofRatio (num * Nat.pow 10 exponent.toNat) 1
    else Format.double.ofRatio num (Nat.pow 10 (-exponent).toNat)
  ⟨negative, magnitude⟩

-- Product and quotient of finite magnitudes, rounded to nearest.
def mul (x y : Nat) : Nat :=
  let (a, b) := Format.double.toRatio x
  let (c, d) := Format.double.toRatio y
  Format.double.ofRatio (a * c) (b * d)

def div (x y : Nat) : Nat :=
  let (a, b) := Format.double.toRatio x
  let (c, d) := Format.double.toRatio y
  Format.double.ofRatio (a * d) (b * c)

end Double

end CommandShell.Number
