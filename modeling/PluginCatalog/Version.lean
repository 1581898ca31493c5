/-!
# Versions and their precedence

A version is three numbers and a list of pre-release identifiers; a release has none. Build
metadata says nothing about precedence and is no part of a version.

* `Version.compare` is the precedence: the numbers from left to right, then a pre-release before
  its release, then the identifiers from left to right, a shorter list before its extensions.
* `Identifier.compare` puts numbers before words, numbers by value and words by code points.
-/

namespace PluginCatalog

/-- One of the identifiers of a pre-release. -/
inductive Identifier where
  /-- An identifier made of digits alone. -/
  | numeric (n : Nat)
  /-- Any other identifier. -/
  | alphanumeric (word : String)
  deriving DecidableEq, Repr

namespace Identifier

/-- Numbers before words, numbers by value, words by code points. -/
protected def compare : Identifier → Identifier → Ordering
  | numeric m, numeric n => Ord.compare m n
  | numeric _, alphanumeric _ => .lt
  | alphanumeric _, numeric _ => .gt
  | alphanumeric v, alphanumeric w => Ord.compare v w

instance : Ord Identifier := ⟨Identifier.compare⟩

end Identifier

/-- A version; `preRelease` is empty for a release. -/
structure Version where
  major : Nat
  minor : Nat
  patch : Nat
  preRelease : List Identifier
  deriving DecidableEq, Repr

namespace Version

/-- A pre-release comes before its release; two pre-releases compare by their identifiers. -/
def comparePreRelease : List Identifier → List Identifier → Ordering
  | [], [] => .eq
  | [], _ :: _ => .gt
  | _ :: _, [] => .lt
  | a, b => List.compareLex Identifier.compare a b

/-- The precedence of versions. -/
protected def compare (a b : Version) : Ordering :=
  (Ord.compare a.major b.major).then <| (Ord.compare a.minor b.minor).then <|
    (Ord.compare a.patch b.patch).then <| comparePreRelease a.preRelease b.preRelease

instance : Ord Version := ⟨Version.compare⟩

/-- Whether `a` does not come after `b`. -/
def precedes (a b : Version) : Bool := (a.compare b).isLE

end Version

end PluginCatalog
