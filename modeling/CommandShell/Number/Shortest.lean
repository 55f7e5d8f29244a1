import CommandShell.Number.Binary

namespace CommandShell.Number

-- The real numbers that round to a magnitude, times `4 / unit`: the magnitude itself, the ends
-- of the interval, and whether the ends round to it too.
structure Interval where
  middle : Nat
  low : Nat
  high : Nat
  unit : Nat
  closed : Bool

namespace Interval

def ofMagnitude (f : Format) (bits : Nat) : Interval :=
  let (m, e) := f.parts bits
  let up := Nat.pow 2 e.toNat
  -- below a power of two the neighbour is twice as near
  let below := if m = f.hidden ∧ f.minExponent < e then 1 else 2
  { middle := 4 * m * up
    low := (4 * m - below) * up
    high := (4 * m + 2) * up
    unit := 4 * Nat.pow 2 (-e).toNat
    closed := m % 2 = 0 }

-- The two sides of a comparison of `digits * 10 ^ k` with `x / unit`.
def sides (i : Interval) (digits : Nat) (k : Int) (x : Nat) : Nat × Nat :=
  (digits * Nat.pow 10 k.toNat * i.unit, x * Nat.pow 10 (-k).toNat)

def contains (i : Interval) (digits : Nat) (k : Int) : Bool :=
  let (low, low') := i.sides digits k i.low
  let (high, high') := i.sides digits k i.high
  if i.closed then low' ≤ low && high ≤ high' else low' < low && high < high'

-- Exponent of the leading decimal digit of the middle.
def leading (i : Interval) : Int :=
  (Nat.toDigits 10 (i.middle * Nat.pow 10 400 / i.unit)).length - 401

-- Among the multiples of `10 ^ k` the one in the interval that is nearest to the middle, a tie
-- going to the even one.
def nearest? (i : Interval) (k : Int) : Option Nat :=
  let floor := i.middle * Nat.pow 10 (-k).toNat / (i.unit * Nat.pow 10 k.toNat)
  match i.contains floor k, i.contains (floor + 1) k with
  | false, false => none
  | true, false => some floor
  | false, true => some (floor + 1)
  | true, true =>
    let (half, middle) := i.sides (2 * floor + 1) k (2 * i.middle)
    if middle < half then some floor
    else if half < middle then some (floor + 1)
    else some (floor + floor % 2)

-- The shortest decimal in the interval, with `digits` digits or more.
def shortest (i : Interval) (leading : Int) : Nat → Nat → Nat × Int
  | 0, _ => (0, 0)
  | tries + 1, digits =>
    let k := leading - (digits - 1 : Nat)
    match i.nearest? k with
    | some n => (n, k)
    | none => i.shortest leading tries (digits + 1)

end Interval

private def stripZeros : Nat → Nat × Int → Nat × Int
  | 0, d => d
  | fuel + 1, (n, k) =>
    if n % 10 = 0 ∧ n ≠ 0 then stripZeros fuel (n / 10, k + 1) else (n, k)

-- The fewest decimal digits that read back as a positive finite magnitude, and the exponent of
-- the last one.  Seventeen digits always do.
def shortestDecimal (bits : Nat) : Nat × Int :=
  let i := Interval.ofMagnitude .double bits
  stripZeros 20 (i.shortest i.leading 17 1)

end CommandShell.Number
