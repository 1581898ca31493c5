import PluginCatalog.Text.Digit
import PluginCatalog.Text.Fields

/-!
# The written form of versions

A written version is an optional `v`, one to three numbers with dots between them, optionally a
hyphen and pre-release identifiers, optionally a plus sign and build identifiers.

* `Version.Parts` holds the pieces as they are written, `Parts.text` writes them.
* `Parts.ofText?` finds the pieces of a text, if it is a written version.
-/

namespace PluginCatalog.Version

/-- The pieces of a written version, each as written. -/
structure Parts where
  /-- Whether a `v` stands in front. -/
  marked : Bool
  major : List Char
  minor : Option (List Char)
  patch : Option (List Char)
  preRelease : Option (List (List Char))
  build : Option (List (List Char))
  deriving DecidableEq, Repr

/-! ## Numbers -/

/-- A number is `0`, or one of `1` to `9` and then decimal digits of any script. -/
def isNumber : List Char → Bool
  | [] => false
  | ['0'] => true
  | c :: ds => '1' ≤ c && c ≤ '9' && ds.all Text.isDigit

/-- The number at the front of a text, and the text after it. -/
def takeNumber? : List Char → Option (List Char × List Char)
  | [] => none
  | '0' :: rest => some (['0'], rest)
  | c :: rest =>
    if '1' ≤ c ∧ c ≤ '9' then
      some (c :: rest.takeWhile Text.isDigit, rest.dropWhile Text.isDigit)
    else none

/-- A dot and a number at the front of a text, if it starts with a dot; nothing otherwise. -/
def takeDottedNumber? : List Char → Option (Option (List Char) × List Char)
  | '.' :: rest => (takeNumber? rest).map fun (number, rest) => (some number, rest)
  | rest => some (none, rest)

/-! ## Identifiers -/

/-- The characters of identifiers: the letters and digits of ASCII and the hyphen. -/
def isIdentifierChar (c : Char) : Bool := c.isAlphanum || c == '-'

/-- An identifier is a non-empty text of identifier characters. -/
def isIdentifier (cs : List Char) : Bool := !cs.isEmpty && cs.all isIdentifierChar

/-- The identifiers of a text, dots between them. -/
def identifiers? (cs : List Char) : Option (List (List Char)) :=
  let ids := Text.fields '.' cs
  if ids.all isIdentifier then some ids else none

/-- A hyphen and identifiers at the front of a text, up to the first plus sign; nothing if there
is no hyphen. -/
def takePreRelease? : List Char → Option (Option (List (List Char)) × List Char)
  | '-' :: rest =>
    (identifiers? (rest.takeWhile (· != '+'))).map fun ids => (some ids, rest.dropWhile (· != '+'))
  | rest => some (none, rest)

/-- The rest of a written version: nothing, or a plus sign and identifiers. -/
def build? : List Char → Option (Option (List (List Char)))
  | [] => some none
  | '+' :: rest => (identifiers? rest).map some
  | _ => none

/-! ## The whole -/

/-- The rest of a text after an optional `v`, and whether there was one. -/
def takeMark : List Char → Bool × List Char
  | 'v' :: rest => (true, rest)
  | rest => (false, rest)

/-- The pieces of a written version; nothing if the text is none. -/
def Parts.ofText? (cs : List Char) : Option Parts := do
  let (marked, rest) := takeMark cs
  let (major, rest) ← takeNumber? rest
  let (minor, rest) ← takeDottedNumber? rest
  let (patch, rest) ← takeDottedNumber? rest
  let (preRelease, rest) ← takePreRelease? rest
  let build ← build? rest
  return { marked, major, minor, patch, preRelease, build }

/-- An optional piece, `mark` in front of it. -/
def optionalText (mark : Char) : Option (List Char) → List Char
  | none => []
  | some cs => mark :: cs

/-- The pieces written one after the other. -/
def Parts.text (p : Parts) : List Char :=
  (if p.marked then ['v'] else []) ++ p.major ++ optionalText '.' p.minor
    ++ optionalText '.' p.patch ++ optionalText '-' (p.preRelease.map (Text.unfields '.'))
    ++ optionalText '+' (p.build.map (Text.unfields '.'))

end PluginCatalog.Version
