import PluginCatalog.Decimal.Binary

/-!
# Shortest decimal digits

The decimal text of a double has the fewest digits that read back as the same double, and among
the texts with so few digits the one nearest to it.

* `Interval` is the set of fractions that read as a double; its ends belong to it when the
  significand is even.
* `shortest b` are the digits, as a number, and the power of ten by which it is to be multiplied.
  It is found on the grids of one, two, up to seventeen digits: the first grid with a point in the
  interval wins, and of two points on it the nearer.
-/

namespace PluginCatalog.Decimal

/-- The fractions that read as one double: from `low / den` to `high / den`, around
`value / den`; the ends belong to it if `closed`. -/
structure Interval where
  low : Nat
  value : Nat
  high : Nat
  den : Nat
  closed : Bool

/-- The fractions that read as `b`. Below a power of two the next double is only half as far. -/
def Interval.of (b : Binary) : Interval :=
  let unit := twoTo b.exponent.toNat
  let lowGap := if b.significand = twoTo 52 ∧ -1074 < b.exponent then 1 else 2
  { low := (4 * b.significand - lowGap) * unit
    value := 4 * b.significand * unit
    high := (4 * b.significand + 2) * unit
    den := 4 * twoTo (-b.exponent).toNat
    closed := b.significand % 2 = 0 }

/-- The interval with the fractions multiplied by a power of ten. -/
def Interval.scale (i : Interval) (power : Int) : Interval :=
  let up := tenTo power.toNat
  { i with low := i.low * up, value := i.value * up, high := i.high * up
           den := i.den * tenTo (-power).toNat }

/-- Whether the integer `n` lies in the interval. -/
def Interval.has (i : Interval) (n : Nat) : Bool :=
  if i.closed then i.low ≤ n * i.den && n * i.den ≤ i.high
  else i.low < n * i.den && n * i.den < i.high

/-- The integer of the interval that is nearest to its value, if an integer next to the value lies
in it; of two equally near ones the even one. -/
def Interval.integer? (i : Interval) : Option Nat :=
  let below := i.value / i.den
  match i.has below, i.has (below + 1) with
  | true, true => some (roundHalfEven i.value i.den)
  | true, false => some below
  | false, true => some (below + 1)
  | false, false => none

/-- The decimal exponent of the leading digit of a positive fraction. -/
def leadingExponent (num den : Nat) : Int :=
  let atLeast (e : Int) : Bool := den * tenTo e.toNat ≤ num * tenTo (-e).toNat
  let guess := Int.fdiv (((num.log2 : Int) - den.log2) * 30103) 100000
  if atLeast (guess + 1) then guess + 1 else if atLeast guess then guess else guess - 1

/-- The first grid with a point in the interval, from `count` digits on, `fuel` grids at most. -/
def searchGrids (i : Interval) (leading : Int) : Nat → Nat → Option (Nat × Int)
  | 0, _ => none
  | fuel + 1, count =>
    let power := leading - (count - 1)
    match (i.scale (-power)).integer? with
    | some n => some (n, power)
    | none => searchGrids i leading fuel (count + 1)

/-- The shortest digits of a positive double and the power of ten that they are multiplied by. -/
def shortest (b : Binary) : Nat × Int :=
  let i := Interval.of b
  (searchGrids i (leadingExponent i.value i.den) 17 1).getD (b.significand, 0)

example : shortest (.ofBits 0x3fb999999999999a) = (1, -1) := by decide +kernel
example : shortest (.ofBits 1) = (5, -324) := by decide +kernel
example : shortest (.ofBits 0x7fefffffffffffff) = (17976931348623157, 292) := by decide +kernel

end PluginCatalog.Decimal
