import PluginCatalog.Decimal.Shortest

/-!
# Decimal notation of doubles

* `Decimal.text x` writes a double with its shortest digits: in positional notation when the
  exponent of the leading digit is at least -4 and below 16, with at least one digit after the
  point; otherwise as a number with one digit before the point, the letter `e`, a sign and at
  least two digits of the exponent.
-/

namespace PluginCatalog.Decimal

/-- The exponents of the leading digit that are written in positional notation. -/
def positional (exponent : Int) : Bool := -4 ≤ exponent && exponent < 16

/-- A number without the zeros at its end, and how many there are, up to `fuel` of them. -/
def dropZeros : Nat → Nat → Nat × Nat
  | 0, n => (n, 0)
  | fuel + 1, n =>
    if n % 10 = 0 then
      let (m, zeros) := dropZeros fuel (n / 10)
      (m, zeros + 1)
    else (n, 0)

/-- The decimal digits of a number. -/
def digits (n : Nat) : List Char := Nat.toDigits 10 n

/-- Digits with a point after the leading one, if there are more. -/
def pointed : List Char → List Char
  | [] => []
  | [d] => [d]
  | d :: ds => d :: '.' :: ds

/-- Digits `ds` whose leading one has the given exponent. -/
def written (ds : List Char) (exponent : Int) : List Char :=
  if positional exponent then
    if exponent < 0 then '0' :: '.' :: List.replicate ((-exponent).toNat - 1) '0' ++ ds
    else
      let whole := exponent.toNat + 1
      if ds.length ≤ whole then ds ++ List.replicate (whole - ds.length) '0' ++ ['.', '0']
      else ds.take whole ++ '.' :: ds.drop whole
  else
    let magnitude := digits exponent.natAbs
    pointed ds ++ ['e', if exponent < 0 then '-' else '+']
      ++ (if magnitude.length < 2 then '0' :: magnitude else magnitude)

/-- The text of a finite double of positive sign with these bits. -/
def magnitudeText (bits : Nat) : List Char :=
  if bits = 0 then ['0', '.', '0']
  else
    let (n, power) := shortest (.ofBits bits)
    let (m, zeros) := dropZeros 17 n
    let ds := digits m
    written ds (power + zeros + (ds.length - 1))

/-- The text of a double. -/
def text (x : Float) : String :=
  let bits := x.toBits.toNat
  let magnitude := bits % signBit
  let sign := if signBit ≤ bits then ['-'] else []
  if magnitude > infinityBits then "nan"
  else if magnitude = infinityBits then String.ofList (sign ++ ['i', 'n', 'f'])
  else String.ofList (sign ++ magnitudeText magnitude)

end PluginCatalog.Decimal
