import PluginCatalog.Calendar
import PluginCatalog.Decimal.Notation
import PluginCatalog.Text.Blank
import PluginCatalog.Text.Fields
import PluginCatalog.Text.Fold
import PluginCatalog.Text.Quoted

/-!
# Values of documents

A document holds values: scalars of several kinds, lists and mappings.

* `Value.isTruthy` tells whether a value counts as true: it is not null, false, zero or empty.
* `Value.sameKey` tells whether two scalars are one key of a mapping: numbers of any kind are
  compared by value.
* `Value.opened` is what a value stands for, where a collection is mentioned inside itself.
* `Value.lookup?` finds an entry of a mapping by its text key, `Value.put` adds or replaces one.
* `Value.literal?` and `Value.text?` are the texts of a value in messages. They fail only on an
  integer with more digits than numbers may have.
-/

namespace PluginCatalog

/-- A value of a document. -/
inductive Value where
  | null
  | bool (b : Bool)
  | int (n : Int)
  | float (x : Float)
  | text (s : String)
  | date (d : Date)
  | moment (m : Moment)
  | bytes (bs : List UInt8)
  | list (items : List Value)
  /-- The entries of a mapping in the order of their first mention. -/
  | map (entries : List (Value × Value))
  | set (items : List Value)
  /-- An item of an ordered list of pairs. -/
  | pair (first second : Value)
  /-- A mention of a collection inside itself. What it mentions is given with its own mentions left
  empty. -/
  | cycle (content : Value)
  deriving Inhabited

namespace Value

/-! ## Truth and kind -/

/-- Whether a value counts as true. -/
def isTruthy : Value → Bool
  | null => false
  | bool b => b
  | int n => n != 0
  | float x => x != 0
  | text s => !s.isEmpty
  | bytes bs => !bs.isEmpty
  | list items => !items.isEmpty
  | map entries => !entries.isEmpty
  | set items => !items.isEmpty
  | date _ | moment _ | pair _ _ | cycle _ => true

/-- The name of a value's kind in messages. -/
def kind : Value → String
  | null => "NoneType"
  | bool _ => "bool"
  | int _ => "int"
  | float _ => "float"
  | text _ => "str"
  | date _ => "date"
  | moment _ => "datetime"
  | bytes _ => "bytes"
  | list _ => "list"
  | map _ => "dict"
  | set _ => "set"
  | pair _ _ => "tuple"
  | cycle content => kind content

/-! ## Keys -/

/-- The integer that a double is, if it is one. -/
def integral? (x : Float) : Option Int :=
  let bits := x.toBits.toNat
  let magnitude := bits % Decimal.signBit
  if magnitude < Decimal.infinityBits then
    let b := Decimal.Binary.ofBits magnitude
    let den := Decimal.twoTo (-b.exponent).toNat
    if b.significand % den = 0 then
      let n : Int := (b.significand / den * Decimal.twoTo b.exponent.toNat : Nat)
      some (if Decimal.signBit ≤ bits then -n else n)
    else none
  else none

/-- The integer that a number of any kind is, if it is one. -/
def integer? : Value → Option Int
  | bool b => some (if b then 1 else 0)
  | int n => some n
  | float x => integral? x
  | _ => none

/-- Whether two scalars are the same key of a mapping. -/
def sameKey : Value → Value → Bool
  | null, null => true
  | text s, text t => s == t
  | date c, date d => c == d
  | moment l, moment m => l == m
  | bytes bs, bytes cs => bs == cs
  | float x, float y => x.toBits == y.toBits || (integral? x).isSome && integral? x == integral? y
  | a, b => match integer? a, integer? b with
    | some m, some n => m == n
    | _, _ => false

/-- What a value stands for: a mention stands for the collection. -/
def opened : Value → Value
  | cycle content => content
  | v => v

/-- What stands at a text key. -/
def lookup? (key : String) (entries : List (Value × Value)) : Option Value :=
  (entries.find? fun (k, _) => match k with
    | text s => s == key
    | _ => false).map fun (_, v) => v.opened

/-- Sets the value at a key: an entry of the same key keeps its place and its first spelling, a new
one goes to the end. -/
def put (key value : Value) : List (Value × Value) → List (Value × Value)
  | [] => [(key, value)]
  | (k, v) :: rest => if sameKey k key then (k, value) :: rest else (k, v) :: put key value rest

/-! ## Texts -/

/-- The decimal text of an integer of at most 4300 digits. -/
def intText? (n : Int) : Option String :=
  if n.natAbs < Decimal.tenTo 4300 then some (toString n) else none

/-- Texts between brackets, with commas between them. -/
def bracketed (left right : String) (items : List String) : String :=
  left ++ Text.joined ", " items ++ right

/-- The text of a mention of a collection inside itself. -/
def mentionText : Value → String
  | map _ => "\x7b...\x7d"
  | _ => "[...]"

mutual

/-- The text of a value that shows its kind: texts quoted, dates with the name of their kind. -/
def literal? : Value → Option String
  | null => some "None"
  | bool b => some (if b then "True" else "False")
  | int n => intText? n
  | float x => some (Decimal.text x)
  | text s => some (Text.quoted s)
  | date d => some d.literal
  | moment m => some m.literal
  | bytes bs => some (Text.quotedBytes bs)
  | list items => (literals? items).map (bracketed "[" "]")
  | map entries => (entryLiterals? entries).map (bracketed "\x7b" "\x7d")
  | set [] => some "set()"
  | set items => (literals? items).map (bracketed "\x7b" "\x7d")
  | pair first second => do return bracketed "(" ")" [← literal? first, ← literal? second]
  | cycle content => some (mentionText content)

/-- The literals of several values. -/
def literals? : List Value → Option (List String)
  | [] => some []
  | v :: rest => do return (← literal? v) :: (← literals? rest)

/-- The literals of the entries of a mapping, a colon between key and value. -/
def entryLiterals? : List (Value × Value) → Option (List String)
  | [] => some []
  | (k, v) :: rest => do
    let key ← literal? k
    let value ← literal? v
    return (key ++ ": " ++ value) :: (← entryLiterals? rest)

end

/-- The plain text of a value: a text is itself, a date has no name of a kind, all else is as in
`literal?`. -/
def text? : Value → Option String
  | text s => some s
  | date d => some d.text
  | moment m => some m.text
  | v => literal? v

example : literal? (.list [.int 1, .text "a", .null]) = some "[1, 'a', None]" := by decide +kernel

/-! ## Flags -/

/-- The words that set a flag. -/
def flagWords : List String := ["true", "1", "yes"]

/-- Whether a text is a word that sets a flag, in letters of any case and with blanks around. -/
def textFlag (s : String) : Bool := flagWords.contains (Text.folded (Text.stripped s))

/-- The flag that a value denotes: a text denotes it by its word, any other value by its truth. -/
def flag : Value → Bool
  | text s => textFlag s
  | v => v.isTruthy

end Value

end PluginCatalog
