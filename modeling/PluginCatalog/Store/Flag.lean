import PluginCatalog.Decimal.Numeral
import PluginCatalog.Value

/-!
# Stored flags

The column of the hidden flag prefers integers: what is put into it is kept as an integer when it
is one, or a text that denotes one.

* `StoredFlag.ofValue` is what the column keeps of a value: true and false are one and zero, a
  double that is an integer becomes it, a text that is a decimal number becomes that number, and
  all other text stays text.
* `StoredFlag.isSet` is the flag that a stored value denotes; an absent one denotes false.
* `StoredFlag.ofBool?` is how the catalogue itself writes a flag: as a word.
-/

namespace PluginCatalog

/-- What the column of the hidden flag holds. -/
inductive StoredFlag where
  | null
  | integer (n : Int)
  | real (x : Float)
  | text (s : String)

namespace StoredFlag

/-- The flag that a stored value denotes. -/
def isSet : StoredFlag → Bool
  | null => false
  | integer n => n != 0
  | real x => x != 0
  | text s => Value.textFlag s

/-- A flag written as a word; an absent one stays absent. -/
def ofBool? : Option Bool → StoredFlag
  | none => null
  | some b => text (if b then "true" else "false")

/-- A flag that was written reads as it was. -/
theorem isSet_ofBool? (b : Bool) : (ofBool? (some b)).isSet = b := by cases b <;> decide

/-! ## What the column keeps -/

/-- The first integer above the range of the column. -/
def bound : Int := Decimal.twoTo 63

/-- Whether an integer fits the column. -/
def fits (n : Int) : Bool := -bound ≤ n && n < bound

/-- A double in the column: an integer strictly inside the range of integers is kept as one. -/
def ofFloat (x : Float) : StoredFlag :=
  match Value.integral? x with
  | some n => if -bound < n ∧ n < bound - 1 then integer n else real x
  | none => real x

/-- The integer that a text is: a sign and digits, nothing else. -/
def wholeNumber? (cs : List Char) : Option Int :=
  let (negative, ds) := Decimal.takeSign cs
  if ds.isEmpty || !ds.all Char.isDigit then none
  else
    let n : Int := Text.numeralValue ds
    some (if negative then -n else n)

/-- The double that a text is: a sign, digits with an optional point and an optional exponent. -/
def decimal? (cs : List Char) : Option Float :=
  let (negative, body) := Decimal.takeSign cs
  (Decimal.magnitudeBits? body).map (Decimal.signed negative)

/-- A text in the column: a decimal number, blanks of ASCII around it, is kept as a number. -/
def ofText (s : String) : StoredFlag :=
  let cs := Decimal.unpadded s.toList
  match wholeNumber? cs, decimal? cs with
  | some n, some x => if fits n then integer n else ofFloat x
  | none, some x => ofFloat x
  | _, none => text s

/-- What the column keeps of a value. -/
def ofValue : Value → StoredFlag
  | .bool b => integer (if b then 1 else 0)
  | .int n => integer n
  | .float x => ofFloat x
  | .text s => ofText s
  | _ => null

end StoredFlag

end PluginCatalog
