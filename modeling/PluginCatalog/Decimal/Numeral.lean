import PluginCatalog.Decimal.Binary
import PluginCatalog.Text.Blank
import PluginCatalog.Text.Digit

/-!
# Reading numerals

* `Decimal.float? cs` reads a double from a text: blank characters around it, a sign, then digits
  with an optional point and exponent, or a word for infinity or for no number. Digits may be of
  any script, and a single underscore may stand between two digits.
* `Decimal.integer? base cs` reads an integer in base 2, 8, 10 or 16, with the mark of the base in
  front if there is one. A decimal integer has at most `maxIntegerDigits` digits.
* `Decimal.ofInt? n` is the double nearest to an integer, if there is one.
-/

namespace PluginCatalog.Decimal

/-! ## Preparing a text -/

/-- A character of a numeral: a digit of any script becomes the ASCII digit, a blank beyond ASCII
becomes a space. -/
def plainChar (c : Char) : Char :=
  match Text.digitValue? c with
  | some d => Char.ofNat (48 + d)
  | none => if 128 ≤ c.toNat && Text.isBlank c then ' ' else c

/-- The blank characters of ASCII that may surround a numeral. -/
def isPadding (c : Char) : Bool := c == ' ' || (9 ≤ c.toNat && c.toNat ≤ 13)

/-- The text without the padding at its two ends. -/
def unpadded (cs : List Char) : List Char :=
  ((cs.dropWhile isPadding).reverse.dropWhile isPadding).reverse

/-- The text without its underscores, if each of them stands between two digits; `afterDigit` tells
whether a digit precedes the text. -/
def withoutUnderscores? (afterDigit : Bool) : List Char → Option (List Char)
  | [] => some []
  | '_' :: c :: rest =>
    if afterDigit && c.isDigit then (withoutUnderscores? true rest).map (c :: ·) else none
  | c :: rest =>
    if c = '_' then none else (withoutUnderscores? c.isDigit rest).map (c :: ·)

/-- A sign in front of a text: whether it is a minus, and the text after it. -/
def takeSign : List Char → Bool × List Char
  | '-' :: rest => (true, rest)
  | '+' :: rest => (false, rest)
  | rest => (false, rest)

/-! ## Doubles -/

/-- The double with these bits and a sign. -/
def signed (negative : Bool) (bits : Nat) : Float :=
  Float.ofBits (UInt64.ofNat (if negative then signBit + bits else bits))

/-- The bits of the double nearest to `n * 10 ^ exponent`. -/
def decimalBits (n : Nat) (exponent : Int) : Nat :=
  let leading : Int := (Nat.toDigits 10 n).length + exponent
  if n = 0 ∨ leading < -330 then 0
  else if 310 < leading then infinityBits
  else nearestBits (n * tenTo exponent.toNat) (tenTo (-exponent).toNat)

/-- The exponent at the end of a numeral: nothing, or the letter e, a sign and digits. -/
def exponent? : List Char → Option Int
  | [] => some 0
  | c :: rest =>
    let (negative, ds) := takeSign rest
    if (c = 'e' ∨ c = 'E') ∧ ds ≠ [] ∧ ds.all Char.isDigit then
      let n : Int := Text.numeralValue ds
      some (if negative then -n else n)
    else none

/-- The bits of a numeral without sign: digits with an optional point among them, at least one
digit, and an optional exponent. -/
def magnitudeBits? (cs : List Char) : Option Nat :=
  let whole := cs.takeWhile Char.isDigit
  let rest := cs.dropWhile Char.isDigit
  let (fraction, rest) := match rest with
    | '.' :: rest => (rest.takeWhile Char.isDigit, rest.dropWhile Char.isDigit)
    | rest => ([], rest)
  if whole.isEmpty && fraction.isEmpty then none
  else (exponent? rest).map fun exponent =>
    decimalBits (Text.numeralValue (whole ++ fraction)) (exponent - fraction.length)

/-- The words for infinity. -/
def infinityWords : List (List Char) := ["inf".toList, "infinity".toList]

/-- The word for a result that is no number. -/
def nanWord : List Char := "nan".toList

/-- A double that is no number. -/
def nan : Float := Float.ofBits 0x7ff8000000000000

/-- Reads a double from a text of ASCII digits without underscores or padding. -/
def bareFloat? (cs : List Char) : Option Float :=
  let (negative, body) := takeSign cs
  let word := body.map Char.toLower
  if infinityWords.contains word then some (signed negative infinityBits)
  else if word = nanWord then some nan
  else (magnitudeBits? body).map (signed negative)

/-- Reads a double. -/
def float? (cs : List Char) : Option Float := do
  bareFloat? (← withoutUnderscores? false (unpadded (cs.map plainChar)))

/-- The double nearest to an integer; nothing if that is infinite. -/
def ofInt? (n : Int) : Option Float :=
  let bits := nearestBits n.natAbs 1
  if bits = infinityBits then none else some (signed (n < 0) bits)

/-! ## Integers -/

/-- The number of digits that a decimal integer may have. -/
def maxIntegerDigits : Nat := 4300

/-- The mark that may stand in front of an integer in the given base. -/
def baseMark : Nat → Option Char
  | 2 => some 'b'
  | 8 => some 'o'
  | 16 => some 'x'
  | _ => none

/-- The text after the mark of the base, if it has one. -/
def dropBaseMark (base : Nat) : List Char → List Char
  | '0' :: c :: rest => if baseMark base = some c.toLower then rest else '0' :: c :: rest
  | cs => cs

/-- The value of a digit or letter. -/
def placeValue? (c : Char) : Option Nat :=
  if c.isDigit then some (c.toNat - 48)
  else if c.isAlpha then some (c.toLower.toNat - 87)
  else none

/-- The value of the digits in the base, if all are digits of it and there is one. -/
def places? (base : Nat) (cs : List Char) : Option Nat :=
  if cs.isEmpty then none
  else cs.foldlM (fun n c => do
    let d ← placeValue? c
    if d < base then some (base * n + d) else none) 0

/-- Reads an integer without underscores in base 2, 8, 10 or 16. -/
def integer? (base : Nat) (cs : List Char) : Option Int := do
  let (negative, body) := takeSign (unpadded (cs.map plainChar))
  let ds := dropBaseMark base body
  if base = 10 && ds.length > maxIntegerDigits then none
  let n ← places? base ds
  return if negative then -n else n

end PluginCatalog.Decimal
