import PluginCatalog.Decimal.Numeral
import PluginCatalog.Text.Base64
import PluginCatalog.Value
import PluginCatalog.Yaml.Token

/-!
# Scalars of YAML

* `Tag` is the kind of value that a node denotes. `Tag.implied` is the kind that the text of a plain
  scalar suggests: a null, a truth value, a number, a time or else a text.
* `scalarValue` is the value that a text denotes under a tag. A tag that is written out may ask for
  a value that the text is not, which is a fault.
-/

namespace PluginCatalog.Yaml

/-- The kind of value that a node denotes. -/
inductive Tag where
  | null
  | bool
  | int
  | float
  | timestamp
  | binary
  | text
  | sequence
  | map
  | orderedMap
  | pairs
  | set
  /-- The key whose mappings are merged into the one around it. -/
  | merge
  /-- The key of a mapping's default value. -/
  | value
  /-- A kind that documents do not have. -/
  | unknown
  deriving DecidableEq, Repr

/-- The kinds by the last part of their full texts. -/
def Tag.names : List (String × Tag) :=
  [("null", null), ("bool", bool), ("int", int), ("float", float), ("timestamp", timestamp),
    ("binary", binary), ("str", text), ("seq", sequence), ("map", map), ("omap", orderedMap),
    ("pairs", pairs), ("set", set), ("merge", merge), ("value", value)]

/-- The kind that the full text of a tag names. -/
def Tag.ofText (s : String) : Tag :=
  ((Tag.names.find? fun (name, _) => "tag:yaml.org,2002:" ++ name == s).map (·.2)).getD .unknown

/-! ## What a plain text suggests -/

/-- A text without the sign in front. -/
def unsigned : List Char → List Char
  | '-' :: rest => rest
  | '+' :: rest => rest
  | rest => rest

/-- A digit or an underscore. -/
def isDigitOrLow (c : Char) : Bool := c.isDigit || c == '_'

/-- A digit, and then digits and underscores. -/
def startsWithDigit : List Char → Bool
  | c :: _ => c.isDigit
  | [] => false

/-- Whether a text is one digit from 0 to 9 or one of 0 to 5 and then one of those. -/
def isSixtieth : List Char → Bool
  | [c] => c.isDigit
  | [c, d] => '0' ≤ c && c ≤ '5' && d.isDigit
  | _ => false

/-- Whether a text is empty, or the letter e, a sign and digits. -/
def isExponent : List Char → Bool
  | [] => true
  | c :: sign :: ds =>
    (c == 'e' || c == 'E') && (sign == '-' || sign == '+') && !ds.isEmpty && ds.all Char.isDigit
  | _ => false

/-- The words for a null. -/
def nullWords : List String := ["", "~", "null", "Null", "NULL"]

/-- The words for true and false, in three spellings each. -/
def boolWords : List String :=
  ["yes", "Yes", "YES", "no", "No", "NO", "true", "True", "TRUE", "false", "False", "FALSE",
    "on", "On", "ON", "off", "Off", "OFF"]

/-- The words for infinity, a sign apart. -/
def infinityWords : List String := [".inf", ".Inf", ".INF"]

/-- The words for a result that is no number. -/
def nanWords : List String := [".nan", ".NaN", ".NAN"]

/-- An integer: binary after `0b`, octal after `0`, decimal, hexadecimal after `0x`, or decimal
places of base sixty with colons between them. -/
def looksInt (cs : List Char) : Bool :=
  match unsigned cs with
  | '0' :: 'b' :: ds => !ds.isEmpty && ds.all fun c => c == '0' || c == '1' || c == '_'
  | '0' :: 'x' :: ds => !ds.isEmpty && ds.all fun c => (Text.hexValue? c).isSome || c == '_'
  | '0' :: ds => ds.all fun c => ('0' ≤ c && c ≤ '7') || c == '_'
  | c :: ds =>
    c.isDigit &&
      match Text.fields ':' ds with
      | first :: places => first.all isDigitOrLow && places.all isSixtieth
      | [] => false
  | [] => false

/-- A double in positional notation: digits, a point, further digits, and an exponent with a sign.
Digits before the point may be left out, but not with a sign. -/
def looksDecimal (cs : List Char) : Bool :=
  match cs with
  | '.' :: rest =>
    startsWithDigit rest && isExponent (rest.dropWhile isDigitOrLow)
  | _ =>
    startsWithDigit (unsigned cs) &&
      match (unsigned cs).dropWhile isDigitOrLow with
      | '.' :: rest => isExponent (rest.dropWhile isDigitOrLow)
      | _ => false

/-- A double in places of base sixty: the last place has a point and possibly digits after it. -/
def looksSixtieths (cs : List Char) : Bool :=
  startsWithDigit (unsigned cs) &&
    match Text.fields ':' (unsigned cs) with
    | first :: second :: more =>
      let places := second :: more
      let last := places.getLast?.getD []
      first.all isDigitOrLow && places.dropLast.all isSixtieth
        && isSixtieth (last.takeWhile (· != '.'))
        && match last.dropWhile (· != '.') with
          | '.' :: fraction => fraction.all isDigitOrLow
          | _ => false
    | _ => false

/-- A double. -/
def looksFloat (cs : List Char) : Bool :=
  looksDecimal cs || looksSixtieths cs || infinityWords.contains (String.ofList (unsigned cs))
    || nanWords.contains (String.ofList cs)

/-! ## Times -/

/-- The time of day as written, and the offset of its zone in minutes, if it is given. -/
structure Clock where
  hour : List Char
  minute : List Char
  second : List Char
  fraction : List Char
  zone : Option Int

/-- The pieces of a day, and of a time of day if there is one. -/
structure TimePieces where
  year : List Char
  month : List Char
  day : List Char
  clock : Option Clock

/-- Between `least` and `most` digits in front, as many as there are. -/
def takeDigits? (least most : Nat) (cs : List Char) : Option (List Char × List Char) :=
  let ds := (cs.take most).takeWhile Char.isDigit
  if ds.length < least then none else some (ds, cs.drop ds.length)

/-- The text after the character `c` in front. -/
def after? (c : Char) : List Char → Option (List Char)
  | d :: rest => if c = d then some rest else none
  | [] => none

/-- Whether a character may stand between day and time of day. -/
def isTimeBlank (c : Char) : Bool := c == ' ' || c == '\t'

/-- The text after what stands between day and time of day: a letter, or spaces and tabs. -/
def afterDay? : List Char → Option (List Char)
  | 'T' :: rest | 't' :: rest => some rest
  | c :: rest => if isTimeBlank c then some (rest.dropWhile isTimeBlank) else none
  | [] => none

/-- The zone at the end of a time: none, the letter of universal time, or a sign, hours and
possibly minutes. -/
def zone? (cs : List Char) : Option (Option Int) :=
  match cs.dropWhile isTimeBlank with
  | [] => if cs.isEmpty then some none else none
  | ['Z'] => some (some 0)
  | sign :: rest => do
    if sign != '+' && sign != '-' then none
    let (hours, rest) ← takeDigits? 1 2 rest
    let minutes ← match rest with
      | [] => some []
      | ':' :: rest => match takeDigits? 2 2 rest with
        | some (minutes, []) => some minutes
        | _ => none
      | _ => none
    let offset : Int := 60 * Text.numeralValue hours + Text.numeralValue minutes
    return some (if sign == '-' then -offset else offset)

/-- The time of day after a day. -/
def clock? (cs : List Char) : Option Clock := do
  let (hour, rest) ← takeDigits? 1 2 (← afterDay? cs)
  let (minute, rest) ← takeDigits? 2 2 (← after? ':' rest)
  let (second, rest) ← takeDigits? 2 2 (← after? ':' rest)
  let (fraction, rest) := match rest with
    | '.' :: rest => (rest.takeWhile Char.isDigit, rest.dropWhile Char.isDigit)
    | rest => ([], rest)
  return { hour, minute, second, fraction, zone := ← zone? rest }

/-- The pieces of a time. -/
def timePieces? (cs : List Char) : Option TimePieces := do
  let (year, rest) ← takeDigits? 4 4 cs
  let (month, rest) ← takeDigits? 1 2 (← after? '-' rest)
  let (day, rest) ← takeDigits? 1 2 (← after? '-' rest)
  if rest.isEmpty then return { year, month, day, clock := none }
  else return { year, month, day, clock := some (← clock? rest) }

/-- A time; a day alone has two digits for the month and two for the day. -/
def looksTimestamp (cs : List Char) : Bool :=
  match timePieces? cs with
  | none => false
  | some p => p.clock.isSome || (p.month.length == 2 && p.day.length == 2)

/-- The text without one line break at its end. -/
def dropFinalBreak (cs : List Char) : List Char :=
  if cs.getLast? = some '\n' then cs.dropLast else cs

/-- The kind of value that the text of a plain scalar suggests. -/
def Tag.implied (cs : List Char) : Tag :=
  let cs := dropFinalBreak cs
  let word := String.ofList cs
  if boolWords.contains word then .bool
  else if looksFloat cs then .float
  else if looksInt cs then .int
  else if word == "<<" then .merge
  else if nullWords.contains word then .null
  else if looksTimestamp cs then .timestamp
  else if word == "=" then .value
  else .text

/-! ## Values -/

/-- The truth value of a word. -/
def boolValue (cs : List Char) : Except Error Value :=
  let word := String.ofList (Text.fold cs)
  if ["yes", "true", "on"].contains word then .ok (.bool true)
  else if ["no", "false", "off"].contains word then .ok (.bool false)
  else .error (.fault .unknownFlag)

/-- A number that has to be there. -/
def number {α : Type} : Option α → Except Error α
  | some a => .ok a
  | none => .error (.fault .malformedNumber)

/-- The integer of places in base sixty. -/
def sixtieths (places : List Int) : Int := places.foldl (fun n place => 60 * n + place) 0

/-- The integer that a text without sign and underscores denotes. -/
def unsignedInt (cs : List Char) : Except Error Int :=
  match cs with
  | [] => .error (.fault .emptyNumber)
  | ['0'] => .ok 0
  | '0' :: 'b' :: ds => number (Decimal.integer? 2 ds)
  | '0' :: 'x' :: ds => number (Decimal.integer? 16 ds)
  | '0' :: _ => number (Decimal.integer? 8 cs)
  | _ =>
    if cs.contains ':' then
      number (((Text.fields ':' cs).mapM (Decimal.integer? 10)).map sixtieths)
    else number (Decimal.integer? 10 cs)

/-- The integer that a text denotes. -/
def intValue (cs : List Char) : Except Error Value :=
  let cs := cs.filter (· != '_')
  if cs.isEmpty then .error (.fault .emptyNumber)
  else
    let (negative, body) := Decimal.takeSign cs
    (unsignedInt body).map fun n => .int (if negative then -n else n)

/-- The double of places in base sixty, added from the last one on. -/
def sixtiethsFloat : Float → List Float → Float → Float
  | _, [], sum => sum
  | base, place :: more, sum => sixtiethsFloat (base * 60) more (sum + place * base)

/-- The double that a text denotes. -/
def floatValue (cs : List Char) : Except Error Value :=
  let cs := (cs.filter (· != '_')).map Char.toLower
  if cs.isEmpty then .error (.fault .emptyNumber)
  else
    let (negative, body) := Decimal.takeSign cs
    let signed (x : Float) : Value := .float (if negative then -x else x)
    if body = ".inf".toList then .ok (.float (Decimal.signed negative Decimal.infinityBits))
    else if body = ".nan".toList then .ok (.float Decimal.nan)
    else if body.contains ':' then
      (number ((Text.fields ':' body).mapM Decimal.float?)).map fun places =>
        signed (sixtiethsFloat 1 places.reverse 0)
    else (number (Decimal.float? body)).map signed

/-- The day or moment that a text denotes. A fraction of a second counts up to six digits. -/
def timeValue (cs : List Char) : Except Error Value :=
  match timePieces? (dropFinalBreak cs) with
  | none => .error (.fault .malformedDate)
  | some p =>
    let n := Text.numeralValue
    let date := Date.of? (n p.year) (n p.month) (n p.day)
    let value : Option Value := match p.clock with
      | none => date.map .date
      | some c =>
        let fraction := c.fraction.take 6
        let micro := n fraction * Decimal.tenTo (6 - fraction.length)
        (Moment.of? date (n c.hour) (n c.minute) (n c.second) micro c.zone).map .moment
    match value with
    | some v => .ok v
    | none => .error (.fault .impossibleDate)

/-- The bytes that a text in base 64 denotes. -/
def binaryValue (cs : List Char) : Except Error Value :=
  if cs.any fun c => 128 ≤ c.toNat then .error .malformed
  else match Text.base64? cs with
    | some bytes => .ok (.bytes bytes)
    | none => .error .malformed

/-- The value that a text denotes under a tag of scalars. -/
def scalarValue (tag : Tag) (s : String) : Except Error Value :=
  match tag with
  | .null => .ok .null
  | .bool => boolValue s.toList
  | .int => intValue s.toList
  | .float => floatValue s.toList
  | .timestamp => timeValue s.toList
  | .binary => binaryValue s.toList
  | .text => .ok (.text s)
  | _ => .error .malformed

end PluginCatalog.Yaml
