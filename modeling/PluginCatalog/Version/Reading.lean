import PluginCatalog.Sorting
import PluginCatalog.Text.Blank
import PluginCatalog.Version
import PluginCatalog.Version.Grammar

/-!
# Reading and sorting versions

* `Version.parse` reads a version from a text, blank characters around it aside. It fails with
  `VersionError.malformed` on a text that is no written version, and with `VersionError.overlong`
  on one with a number of more than `maxDigits` digits.
* `Version.isWritten` tells whether a text is a written version.
* `sortVersions` sorts written versions by precedence, equal ones in the order given, and
  `maxVersion` is the last of the sorted ones.
-/

namespace PluginCatalog

/-- Why a text gives no version. -/
inductive VersionError where
  /-- The text, or the absent text, is no written version. -/
  | malformed (text : Option String)
  /-- A number has more digits than numbers may have. -/
  | overlong
  deriving DecidableEq, Repr

/-- The wording of the error. -/
def VersionError.message : VersionError → String
  | malformed none => "Invalid semantic version: 'None'"
  | malformed (some text) => s!"Invalid semantic version: '{text}'"
  | overlong => "Exceeds the limit of digits of a number"

namespace Version

/-- The number of digits that a number may have. -/
def maxDigits : Nat := 4300

/-- The value of a number that is not too long. -/
def number? (digits : List Char) : Except VersionError Nat :=
  if digits.length ≤ maxDigits then .ok (Text.numeralValue digits) else .error .overlong

/-- The identifier with this text: a number if all of it are digits. -/
def identifier? (cs : List Char) : Except VersionError Identifier :=
  if cs.all Char.isDigit then (number? cs).map .numeric
  else .ok (.alphanumeric (String.ofList cs))

/-- The version of which these are the pieces: a missing number is zero. -/
def ofParts (p : Parts) : Except VersionError Version := do
  let major ← number? p.major
  let minor ← number? (p.minor.getD [])
  let patch ← number? (p.patch.getD [])
  let preRelease ← (p.preRelease.getD []).mapM identifier?
  return { major, minor, patch, preRelease }

/-- Reads a version. -/
def parse (text : String) : Except VersionError Version :=
  match Parts.ofText? (Text.strip text.toList) with
  | none => .error (.malformed (some text))
  | some parts => ofParts parts

/-- Reads a version that may be absent; absent, it is malformed. -/
def parse? : Option String → Except VersionError Version
  | none => .error (.malformed none)
  | some text => parse text

/-- Whether the text, which may be absent, is a written version. It fails on an overlong number. -/
def isWritten (text : Option String) : Except VersionError Bool :=
  match parse? text with
  | .ok _ => .ok true
  | .error (.malformed _) => .ok false
  | .error .overlong => .error .overlong

end Version

/-- Sorts pairs of a text and its version by the version. -/
def sortByVersion (l : List (String × Version)) : List (String × Version) :=
  stableSort (fun a b => a.2.precedes b.2) l

/-- The versions in ascending precedence, equal ones in the order given. -/
def sortVersions (texts : List String) : Except VersionError (List String) := do
  let read ← texts.mapM fun text => (Version.parse text).map (text, ·)
  return (sortByVersion read).map (·.1)

/-- The last of the sorted versions, or the empty text if there are none. -/
def maxVersion (texts : List String) : Except VersionError String :=
  (sortVersions texts).map fun sorted => sorted.getLast?.getD ""

end PluginCatalog
