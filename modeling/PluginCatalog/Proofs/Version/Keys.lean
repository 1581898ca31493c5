import Mathlib.Data.List.Basic
import PluginCatalog.Proofs.Version.Grammar
import PluginCatalog.Proofs.Version.Numbers
import PluginCatalog.Proofs.Version.Precedence

/-!
# Sort keys of versions

A version has a key of numbers and identifiers, and keys are compared entry by entry from left to
right.

* `Version.sortKey v`: the three numbers, a flag that is one for a release and zero for a
  pre-release, and for each identifier its kind, its number and its word.
* `Version.compare_sortKey`: the precedence of versions is the order of their keys.
* `Parts.version p` is the version of which `p` are the pieces, `Parts.sortKey p` its key, told from
  the pieces.
* `parse_eq_ok_iff`: what is read of a text is the version of its pieces.
-/

namespace PluginCatalog

/-! ## Keys -/

/-- The key of an identifier. -/
structure IdentifierKey where
  /-- Zero for a number, one for a word. -/
  kind : Nat
  number : Nat
  word : String
  deriving DecidableEq

/-- The key of a version. -/
structure SortKey where
  major : Nat
  minor : Nat
  patch : Nat
  /-- One for a release, zero for a pre-release. -/
  flag : Nat
  identifiers : List IdentifierKey
  deriving DecidableEq

/-- Keys of identifiers are compared entry by entry. -/
protected def IdentifierKey.compare (a b : IdentifierKey) : Ordering :=
  (compare a.kind b.kind).then <| (compare a.number b.number).then <| compare a.word b.word

/-- Keys of versions are compared entry by entry, and lists of identifiers in the same way: one that
ends first comes first. -/
protected def SortKey.compare (a b : SortKey) : Ordering :=
  (compare a.major b.major).then <| (compare a.minor b.minor).then <|
    (compare a.patch b.patch).then <| (compare a.flag b.flag).then <|
      List.compareLex IdentifierKey.compare a.identifiers b.identifiers

/-- The key of an identifier: what it does not have is zero or empty. -/
def Identifier.sortKey (i : Identifier) : IdentifierKey := ⟨i.kind, i.number, i.word⟩

theorem Identifier.compare_sortKey (a b : Identifier) :
    a.sortKey.compare b.sortKey = a.compare b := by
  rw [Identifier.compare_eq]
  rfl

theorem Identifier.sortKey_injective : Function.Injective Identifier.sortKey := by
  intro a b h
  cases a <;> cases b <;> simp_all [sortKey, kind, number, word]

namespace Version

/-- The key of a version. -/
def sortKey (v : Version) : SortKey :=
  ⟨v.major, v.minor, v.patch, if v.preRelease.isEmpty then 1 else 0,
    v.preRelease.map Identifier.sortKey⟩

theorem compareLex_map {α β : Type} (f : α → β) (cmp : β → β → Ordering) (as bs : List α) :
    List.compareLex cmp (as.map f) (bs.map f) =
      List.compareLex (fun a b => cmp (f a) (f b)) as bs := by
  induction as generalizing bs with
  | nil => cases bs <;> rfl
  | cons a as ih =>
    cases bs with
    | nil => rfl
    | cons b bs => rw [List.map_cons, List.map_cons, List.compareLex_cons_cons,
        List.compareLex_cons_cons, ih]

/-- A release comes after its pre-releases. -/
theorem compare_flag (v w : Version) : (compare v.sortKey.flag w.sortKey.flag).then
    (List.compareLex Identifier.compare v.preRelease w.preRelease) =
      comparePreRelease v.preRelease w.preRelease := by
  unfold sortKey
  cases v.preRelease with
  | nil =>
    cases w.preRelease with
    | nil => rfl
    | cons j b => rfl
  | cons i a =>
    cases w.preRelease with
    | nil => rfl
    | cons j b => simp [comparePreRelease]

/-- **The precedence of versions** is the order of their keys. -/
theorem compare_sortKey (v w : Version) : v.sortKey.compare w.sortKey = v.compare w := by
  have hidentifiers : List.compareLex IdentifierKey.compare v.sortKey.identifiers
      w.sortKey.identifiers = List.compareLex Identifier.compare v.preRelease w.preRelease := by
    change List.compareLex _ (v.preRelease.map Identifier.sortKey)
      (w.preRelease.map Identifier.sortKey) = _
    rw [compareLex_map]
    simp only [Identifier.compare_sortKey]
  unfold SortKey.compare Version.compare
  rw [hidentifiers, compare_flag]
  rfl

theorem sortKey_injective : Function.Injective sortKey := by
  intro v w h
  simp only [sortKey, SortKey.mk.injEq] at h
  obtain ⟨hmajor, hminor, hpatch, -, hids⟩ := h
  obtain ⟨major, minor, patch, ids⟩ := v
  rw [Version.mk.injEq]
  exact ⟨hmajor, hminor, hpatch, Identifier.sortKey_injective.list_map hids⟩

/-! ## Pieces and what they are worth -/

/-- The value of a number; a missing one is zero. -/
def value (n : Option (List Char)) : Nat := (n.map Text.numeralValue).getD 0

/-- The identifier with this text: a number if all of it are digits. -/
def identifierOf (cs : List Char) : Identifier :=
  if cs.all Char.isDigit then .numeric (Text.numeralValue cs) else .alphanumeric (String.ofList cs)

/-- The version of which these are the pieces. -/
def Parts.version (p : Parts) : Version :=
  ⟨Text.numeralValue p.major, value p.minor, value p.patch, (p.preRelease.getD []).map identifierOf⟩

/-- The key of the identifier with this text: a number if all of it are digits, else a word. -/
def identifierKey (cs : List Char) : IdentifierKey :=
  if cs.all Char.isDigit then ⟨0, Text.numeralValue cs, ""⟩ else ⟨1, 0, String.ofList cs⟩

/-- The key of the version of which these are the pieces: build identifiers and the mark in front do
not count. -/
def Parts.sortKey (p : Parts) : SortKey :=
  ⟨Text.numeralValue p.major, value p.minor, value p.patch,
    if p.preRelease.isSome then 0 else 1, (p.preRelease.getD []).map identifierKey⟩

theorem sortKey_identifierOf (cs : List Char) : (identifierOf cs).sortKey = identifierKey cs := by
  unfold identifierOf identifierKey
  split <;> rfl

theorem Parts.WellFormed.sortKey_version {p : Parts} (h : p.WellFormed) :
    p.version.sortKey = p.sortKey := by
  have hids : ∀ ids : List (List Char),
      (ids.map identifierOf).map Identifier.sortKey = ids.map identifierKey := by
    intro ids
    rw [List.map_map]
    exact List.map_congr_left fun cs _ => sortKey_identifierOf cs
  unfold Version.sortKey sortKey
  rw [SortKey.mk.injEq]
  refine ⟨rfl, rfl, rfl, ?_, hids _⟩
  -- A pre-release has an identifier.
  cases hpre : p.preRelease with
  | none => simp [version, hpre]
  | some ids => simp [version, hpre, (h.preRelease ids hpre).1]

/-! ## Reading -/

theorem identifier?_eq {cs : List Char} {i : Identifier} (h : identifier? cs = .ok i) :
    i = identifierOf cs := by
  unfold identifier? at h
  unfold identifierOf
  split at h
  next hd =>
    rcases hn : number? cs with e | n
    · rw [hn] at h
      cases h
    · rw [hn] at h
      obtain rfl := Except.ok.inj h
      rw [if_pos hd, (number?_eq_ok_iff.1 hn).2]
  next hd =>
    rw [if_neg hd]
    exact (Except.ok.inj h).symm

theorem mapM_identifier?_eq {ids : List (List Char)} {is : List Identifier}
    (h : ids.mapM identifier? = .ok is) : is = ids.map identifierOf := by
  induction ids generalizing is with
  | nil => exact (Except.ok.inj h).symm
  | cons cs ids ih =>
    rw [List.mapM_cons, bind_eq_ok_iff] at h
    obtain ⟨i, hi, h⟩ := h
    rw [bind_eq_ok_iff] at h
    obtain ⟨is', his, h⟩ := h
    obtain rfl := Except.ok.inj h
    rw [List.map_cons, ih his, identifier?_eq hi]

/-- The version of pieces is that of their values. -/
theorem ofParts_eq {p : Parts} {v : Version} (h : ofParts p = .ok v) : v = p.version := by
  have hvalue : ∀ n : Option (List Char), Text.numeralValue (n.getD []) = value n := by
    intro n
    cases n <;> rfl
  unfold ofParts at h
  simp only [bind_eq_ok_iff, number?_eq_ok_iff] at h
  obtain ⟨_, ⟨-, rfl⟩, _, ⟨-, rfl⟩, _, ⟨-, rfl⟩, ids, hids, h⟩ := h
  obtain rfl := Except.ok.inj h
  rw [Parts.version, hvalue, hvalue, mapM_identifier?_eq hids]

/-- **What is read of a text** is the version of its pieces, if none of its numbers is overlong. -/
theorem parse_eq_ok_iff {text : String} {v : Version} : parse text = .ok v ↔
    ∃ p : Parts, p.Spells text ∧ (∀ n ∈ p.numbers, n.length ≤ maxDigits) ∧ v = p.version := by
  simp only [Parts.spells_iff]
  unfold parse
  cases hp : Parts.ofText? (Text.strip text.toList) with
  | none => simp
  | some p =>
    simp only [Option.some.injEq, exists_eq_left']
    constructor
    · intro h
      exact ⟨short_of_ofParts h, ofParts_eq h⟩
    · rintro ⟨hshort, rfl⟩
      obtain ⟨v, hv⟩ := ofParts_eq_ok hshort
      rw [hv, ofParts_eq hv]

end Version

end PluginCatalog
