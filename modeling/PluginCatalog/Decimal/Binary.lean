/-!
# Binary fractions of double precision

A finite double of positive sign is `significand * 2 ^ exponent`.

* `Binary.ofBits` decodes the bits of a finite double, its sign aside.
* `nearestBits num den` are the bits of the double nearest to the fraction `num / den`; a tie goes
  to the even significand, and a fraction beyond the largest double to infinity.
-/

namespace PluginCatalog.Decimal

/-- A power of two. -/
def twoTo (n : Nat) : Nat := Nat.pow 2 n

/-- A power of ten. -/
def tenTo (n : Nat) : Nat := Nat.pow 10 n

/-- The number `significand * 2 ^ exponent`. -/
structure Binary where
  significand : Nat
  exponent : Int
  deriving DecidableEq, Repr

/-- The bits of infinity. -/
def infinityBits : Nat := 0x7ff0000000000000

/-- The bit of the sign. -/
def signBit : Nat := 0x8000000000000000

/-- The magnitude of a finite double with these bits. -/
def Binary.ofBits (bits : Nat) : Binary :=
  let field : Nat := bits / twoTo 52 % 2048
  let fraction : Nat := bits % twoTo 52
  if field = 0 then ⟨fraction, -1074⟩ else ⟨twoTo 52 + fraction, (field : Int) - 1075⟩

/-- The integer nearest to the fraction, a tie going to the even one. -/
def roundHalfEven (num den : Nat) : Nat :=
  let quotient := num / den
  let rest := 2 * (num % den)
  if rest < den ∨ (rest = den ∧ quotient % 2 = 0) then quotient else quotient + 1

/-- The fraction divided by a power of two, as numerator and denominator. -/
def scaleDown (num den : Nat) (exponent : Int) : Nat × Nat :=
  (num * twoTo (-exponent).toNat, den * twoTo exponent.toNat)

/-- The exponent of the grid of doubles around a positive fraction: on it the fraction has 53
binary digits before the point, or fewer on the finest grid. -/
def gridExponent (num den : Nat) : Int :=
  let coarse := (num.log2 : Int) - den.log2 - 53
  let (n, d) := scaleDown num den coarse
  max (-1074) (if n / d < twoTo 53 then coarse else coarse + 1)

/-- The bits of the double nearest to the fraction. -/
def nearestBits (num den : Nat) : Nat :=
  if num = 0 then 0
  else
    let exponent := gridExponent num den
    let (n, d) := scaleDown num den exponent
    let significand := roundHalfEven n d
    let bits := if significand < twoTo 52 then significand
      else (exponent + 1075).toNat * twoTo 52 + (significand - twoTo 52)
    min bits infinityBits

example : nearestBits 1 10 = 0x3fb999999999999a := by decide +kernel
example : nearestBits 1 (tenTo 400) = 0 := by decide +kernel
example : nearestBits (tenTo 309) 1 = infinityBits := by decide +kernel

end PluginCatalog.Decimal
