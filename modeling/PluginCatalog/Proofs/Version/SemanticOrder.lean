import Mathlib.Data.List.Forall2
import Mathlib.Data.Option.Defs
import Mathlib.Data.String.Basic
import Mathlib.Order.Compare
import PluginCatalog.Proofs.Version.Keys

/-!
# The semantic order of versions

When one version comes before another is said of the pieces that spell them, by the first difference
from left to right.

* `IdentifierBefore` and `IdentifiersBefore`: numbers by value and words by code points, numbers
  before words, a list before its extensions.
* `Parts.Before`: the numbers by value, a missing one as zero; then a pre-release before its
  release, and pre-releases by their identifiers. Neither the mark nor the build counts.
* `precedence_semantic`: the precedence of versions is this order, and a total preorder.
-/

namespace PluginCatalog.Version

/-! ## Identifiers -/

/-- One identifier comes before another. -/
inductive IdentifierBefore : List Char → List Char → Prop
  /-- Numbers are ordered by value. -/
  | value {a b : List Char} (ha : a.all Char.isDigit) (hb : b.all Char.isDigit)
      (h : Text.numeralValue a < Text.numeralValue b) : IdentifierBefore a b
  /-- Numbers come before words. -/
  | kind {a b : List Char} (ha : a.all Char.isDigit) (hb : ¬b.all Char.isDigit) :
      IdentifierBefore a b
  /-- Words are ordered by code points. -/
  | word {a b : List Char} (ha : ¬a.all Char.isDigit) (hb : ¬b.all Char.isDigit) (h : a < b) :
      IdentifierBefore a b

/-- Two identifiers count as the same one. -/
inductive SameIdentifier : List Char → List Char → Prop
  /-- Numbers of one value, whatever zeros are in front. -/
  | value {a b : List Char} (ha : a.all Char.isDigit) (hb : b.all Char.isDigit)
      (h : Text.numeralValue a = Text.numeralValue b) : SameIdentifier a b
  | refl (a : List Char) : SameIdentifier a a

/-- One list of identifiers comes before another. -/
inductive IdentifiersBefore : List (List Char) → List (List Char) → Prop
  /-- The first list ends first. -/
  | ended (b : List Char) (bs : List (List Char)) : IdentifiersBefore [] (b :: bs)
  /-- The lists differ here. -/
  | here {a b : List Char} (h : IdentifierBefore a b) (as bs : List (List Char)) :
      IdentifiersBefore (a :: as) (b :: bs)
  /-- The lists differ later. -/
  | later {a b : List Char} (h : SameIdentifier a b) {as bs : List (List Char)}
      (hlater : IdentifiersBefore as bs) : IdentifiersBefore (a :: as) (b :: bs)

theorem compare_identifierOf_eq_lt {a b : List Char} :
    (identifierOf a).compare (identifierOf b) = .lt ↔ IdentifierBefore a b := by
  unfold identifierOf
  constructor
  · intro h
    split at h
    next ha =>
      split at h
      next hb => exact .value ha hb (compare_lt_iff_lt.1 h)
      next hb => exact .kind ha hb
    next ha =>
      split at h
      next hb => cases h
      next hb =>
        have hlt : String.ofList a < String.ofList b := compare_lt_iff_lt.1 h
        rw [String.lt_iff_toList_lt, String.toList_ofList, String.toList_ofList] at hlt
        exact .word ha hb hlt
  · rintro (⟨ha, hb, h⟩ | ⟨ha, hb⟩ | ⟨ha, hb, h⟩)
    · rw [if_pos ha, if_pos hb]
      exact compare_lt_iff_lt.2 h
    · rw [if_pos ha, if_neg hb]
      rfl
    · rw [if_neg ha, if_neg hb]
      refine compare_lt_iff_lt.2 ?_
      rwa [String.lt_iff_toList_lt, String.toList_ofList, String.toList_ofList]

theorem compare_identifierOf_eq_eq {a b : List Char} :
    (identifierOf a).compare (identifierOf b) = .eq ↔ SameIdentifier a b := by
  unfold identifierOf
  constructor
  · intro h
    split at h
    next ha =>
      split at h
      next hb => exact .value ha hb (compare_eq_iff_eq.1 h)
      next hb => cases h
    next ha =>
      split at h
      next hb => cases h
      next hb =>
        have heq : String.ofList a = String.ofList b := compare_eq_iff_eq.1 h
        rw [String.ofList_injective heq]
        exact .refl b
  · rintro (⟨ha, hb, h⟩ | ⟨⟩)
    · rw [if_pos ha, if_pos hb]
      exact compare_eq_iff_eq.2 h
    · have hself : (identifierOf a).compare (identifierOf a) = .eq := Std.ReflCmp.compare_self
      exact hself

/-- **Lists of identifiers** are compared up to their first difference. -/
theorem compareLex_eq_lt {as bs : List (List Char)} :
    List.compareLex Identifier.compare (as.map identifierOf) (bs.map identifierOf) = .lt ↔
      IdentifiersBefore as bs := by
  induction as generalizing bs with
  | nil =>
    cases bs with
    | nil => exact ⟨nofun, nofun⟩
    | cons b bs => exact ⟨fun _ => .ended b bs, fun _ => rfl⟩
  | cons a as ih =>
    cases bs with
    | nil => exact ⟨nofun, nofun⟩
    | cons b bs =>
      rw [List.map_cons, List.map_cons, List.compareLex_cons_cons, Ordering.then_eq_lt,
        compare_identifierOf_eq_lt, compare_identifierOf_eq_eq, ih]
      constructor
      · rintro (h | ⟨h, hlater⟩)
        · exact .here h as bs
        · exact .later h hlater
      · rintro (_ | ⟨h⟩ | ⟨h, hlater⟩)
        · exact .inl h
        · exact .inr ⟨h, hlater⟩

theorem compareLex_eq_eq {as bs : List (List Char)} :
    List.compareLex Identifier.compare (as.map identifierOf) (bs.map identifierOf) = .eq ↔
      List.Forall₂ SameIdentifier as bs := by
  induction as generalizing bs with
  | nil =>
    cases bs with
    | nil => exact ⟨fun _ => .nil, fun _ => rfl⟩
    | cons b bs => exact ⟨nofun, nofun⟩
  | cons a as ih =>
    cases bs with
    | nil => exact ⟨nofun, nofun⟩
    | cons b bs =>
      rw [List.map_cons, List.map_cons, List.compareLex_cons_cons, Ordering.then_eq_eq,
        compare_identifierOf_eq_eq, ih, List.forall₂_cons]

/-! ## Pre-releases -/

/-- Of two versions with the same numbers one comes before the other. -/
inductive PreReleaseBefore : Option (List (List Char)) → Option (List (List Char)) → Prop
  /-- A pre-release comes before its release. -/
  | release (as : List (List Char)) : PreReleaseBefore (some as) none
  /-- Pre-releases are ordered by their identifiers. -/
  | identifiers {as bs : List (List Char)} (h : IdentifiersBefore as bs) :
      PreReleaseBefore (some as) (some bs)

/-- The identifiers of a pre-release, which are none for a release. -/
def identifiersOf (ids : Option (List (List Char))) : List Identifier :=
  (ids.getD []).map identifierOf

section

variable {ids js : Option (List (List Char))}

theorem comparePreRelease_of_some {is js : List (List Char)} (hi : AreIdentifiers is)
    (hj : AreIdentifiers js) :
    comparePreRelease (identifiersOf (some is)) (identifiersOf (some js)) =
      List.compareLex Identifier.compare (is.map identifierOf) (js.map identifierOf) := by
  cases is with
  | nil => exact absurd rfl hi.1
  | cons i is =>
    cases js with
    | nil => exact absurd rfl hj.1
    | cons j js => rfl

theorem comparePreRelease_of_some_none {is : List (List Char)} (hi : AreIdentifiers is) :
    comparePreRelease (identifiersOf (some is)) (identifiersOf none) = .lt := by
  cases is with
  | nil => exact absurd rfl hi.1
  | cons i is => rfl

theorem comparePreRelease_of_none_some {js : List (List Char)} (hj : AreIdentifiers js) :
    comparePreRelease (identifiersOf none) (identifiersOf (some js)) = .gt := by
  cases js with
  | nil => exact absurd rfl hj.1
  | cons j js => rfl

theorem comparePreRelease_eq_lt (hi : ∀ is ∈ ids, AreIdentifiers is)
    (hj : ∀ is ∈ js, AreIdentifiers is) :
    comparePreRelease (identifiersOf ids) (identifiersOf js) = .lt ↔ PreReleaseBefore ids js := by
  cases ids with
  | none =>
    cases js with
    | none => exact ⟨nofun, nofun⟩
    | some js =>
      rw [comparePreRelease_of_none_some (hj js rfl)]
      exact ⟨nofun, nofun⟩
  | some is =>
    cases js with
    | none => exact ⟨fun _ => .release is, fun _ => comparePreRelease_of_some_none (hi is rfl)⟩
    | some js =>
      rw [comparePreRelease_of_some (hi is rfl) (hj js rfl), compareLex_eq_lt]
      exact ⟨.identifiers, fun | .identifiers h => h⟩

theorem comparePreRelease_eq_eq (hi : ∀ is ∈ ids, AreIdentifiers is)
    (hj : ∀ is ∈ js, AreIdentifiers is) :
    comparePreRelease (identifiersOf ids) (identifiersOf js) = .eq ↔
      Option.Rel (List.Forall₂ SameIdentifier) ids js := by
  cases ids with
  | none =>
    cases js with
    | none => exact ⟨fun _ => .none, fun _ => rfl⟩
    | some js =>
      rw [comparePreRelease_of_none_some (hj js rfl)]
      exact ⟨nofun, nofun⟩
  | some is =>
    cases js with
    | none =>
      rw [comparePreRelease_of_some_none (hi is rfl)]
      exact ⟨nofun, nofun⟩
    | some js =>
      rw [comparePreRelease_of_some (hi is rfl) (hj js rfl), compareLex_eq_eq]
      exact ⟨.some, fun | .some h => h⟩

end

/-! ## Versions -/

namespace Parts

/-- The numbers of two versions have the same values, a missing one being zero. -/
structure SameNumbers (p q : Parts) : Prop where
  major : Text.numeralValue p.major = Text.numeralValue q.major
  minor : value p.minor = value q.minor
  patch : value p.patch = value q.patch

/-- One version comes before another, by the first difference. -/
inductive Before (p q : Parts) : Prop
  | major (h : Text.numeralValue p.major < Text.numeralValue q.major)
  | minor (hmajor : Text.numeralValue p.major = Text.numeralValue q.major)
      (h : value p.minor < value q.minor)
  | patch (hmajor : Text.numeralValue p.major = Text.numeralValue q.major)
      (hminor : value p.minor = value q.minor) (h : value p.patch < value q.patch)
  | preRelease (hnumbers : p.SameNumbers q) (h : PreReleaseBefore p.preRelease q.preRelease)

/-- Two versions count as the same one. -/
structure Same (p q : Parts) : Prop where
  numbers : p.SameNumbers q
  preRelease : Option.Rel (List.Forall₂ SameIdentifier) p.preRelease q.preRelease

variable {p q : Parts}

theorem compare_version_eq_lt (hp : p.WellFormed) (hq : q.WellFormed) :
    p.version.compare q.version = .lt ↔ p.Before q := by
  change (compare (Text.numeralValue p.major) (Text.numeralValue q.major)).then
    ((compare (value p.minor) (value q.minor)).then ((compare (value p.patch) (value q.patch)).then
      (comparePreRelease (identifiersOf p.preRelease) (identifiersOf q.preRelease)))) = .lt ↔ _
  simp only [Ordering.then_eq_lt, Nat.compare_eq_lt, Nat.compare_eq_eq,
    comparePreRelease_eq_lt hp.preRelease hq.preRelease]
  constructor
  · rintro (h | ⟨hmajor, h | ⟨hminor, h | ⟨hpatch, h⟩⟩⟩)
    · exact .major h
    · exact .minor hmajor h
    · exact .patch hmajor hminor h
    · exact .preRelease ⟨hmajor, hminor, hpatch⟩ h
  · rintro (h | ⟨hmajor, h⟩ | ⟨hmajor, hminor, h⟩ | ⟨⟨hmajor, hminor, hpatch⟩, h⟩)
    · exact .inl h
    · exact .inr ⟨hmajor, .inl h⟩
    · exact .inr ⟨hmajor, .inr ⟨hminor, .inl h⟩⟩
    · exact .inr ⟨hmajor, .inr ⟨hminor, .inr ⟨hpatch, h⟩⟩⟩

theorem compare_version_eq_eq (hp : p.WellFormed) (hq : q.WellFormed) :
    p.version.compare q.version = .eq ↔ p.Same q := by
  change (compare (Text.numeralValue p.major) (Text.numeralValue q.major)).then
    ((compare (value p.minor) (value q.minor)).then ((compare (value p.patch) (value q.patch)).then
      (comparePreRelease (identifiersOf p.preRelease) (identifiersOf q.preRelease)))) = .eq ↔ _
  simp only [Ordering.then_eq_eq, Nat.compare_eq_eq,
    comparePreRelease_eq_eq hp.preRelease hq.preRelease]
  constructor
  · rintro ⟨hmajor, hminor, hpatch, h⟩
    exact ⟨⟨hmajor, hminor, hpatch⟩, h⟩
  · rintro ⟨⟨hmajor, hminor, hpatch⟩, h⟩
    exact ⟨hmajor, hminor, hpatch, h⟩

end Parts

/-- **The precedence of versions** is the semantic order of the pieces that spell them, and a total
preorder of versions; keys are equal exactly if the pieces count as the same. -/
theorem precedence_semantic :
    (∀ {a b : String} {v w : Version}, parse a = .ok v → parse b = .ok w →
      ∃ p q : Parts, p.Spells a ∧ q.Spells b ∧
        (v.sortKey.compare w.sortKey = .lt ↔ p.Before q) ∧
        (v.sortKey.compare w.sortKey = .gt ↔ q.Before p) ∧
        (v.sortKey.compare w.sortKey = .eq ↔ p.Same q) ∧
        (v.sortKey = w.sortKey ↔ p.Same q)) ∧
      (∀ v w : Version, v.precedes w ↔ (v.sortKey.compare w.sortKey).isLE) ∧
      (∀ v w : Version, v.precedes w ∨ w.precedes v) ∧
      ∀ u v w : Version, u.precedes v → v.precedes w → u.precedes w := by
  simp only [compare_sortKey]
  refine ⟨fun {a b v w} ha hb => ?_, fun v w => Iff.rfl, fun v w => ?_, fun u v w => ?_⟩
  · obtain ⟨p, hp, -, rfl⟩ := parse_eq_ok_iff.1 ha
    obtain ⟨q, hq, -, rfl⟩ := parse_eq_ok_iff.1 hb
    have heq := Parts.compare_version_eq_eq hp.wellFormed hq.wellFormed
    refine ⟨p, q, hp, hq, Parts.compare_version_eq_lt hp.wellFormed hq.wellFormed, ?_, heq, ?_⟩
    · have hswap : p.version.compare q.version = (q.version.compare p.version).swap :=
        Std.OrientedCmp.eq_swap
      rw [hswap, Ordering.swap_eq_gt]
      exact Parts.compare_version_eq_lt hq.wellFormed hp.wellFormed
    · rw [sortKey_injective.eq_iff, ← heq]
      exact compare_eq_eq_iff.symm
  · exact Bool.or_eq_true_iff.1 (precedes_total v w)
  · exact precedes_trans

/-- Identifiers with leading zeros, of two kinds and of two lengths, a missing number and a
build. -/
theorem precedence_semantic_identifiers :
    ∃ p q : Parts, p.Spells "v1.2-rc.007.2-x" ∧ q.Spells "1.2.0-rc.7.2-x.1+build " ∧
      p.Before q ∧ ¬p.Same q := by
  obtain ⟨horder, -⟩ := precedence_semantic
  have hparse : parse "v1.2-rc.007.2-x" =
      .ok ⟨1, 2, 0, [.alphanumeric "rc", .numeric 7, .alphanumeric "2-x"]⟩ := by decide +kernel
  have hparse' : parse "1.2.0-rc.7.2-x.1+build " =
      .ok ⟨1, 2, 0, [.alphanumeric "rc", .numeric 7, .alphanumeric "2-x", .numeric 1]⟩ := by
    decide +kernel
  obtain ⟨p, q, hp, hq, hlt, -, heq, -⟩ := horder hparse hparse'
  refine ⟨p, q, hp, hq, hlt.1 (by decide +kernel), fun hsame => ?_⟩
  exact absurd (heq.2 hsame) (by decide +kernel)

end PluginCatalog.Version
