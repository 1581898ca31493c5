import PluginCatalog.Version

/-!
# The order of versions

Identifiers are compared as triples of their kind, number and word, and versions as their three
numbers with the list of identifiers, where no identifiers come last. Both comparisons are thus
lexicographic ones, the precedence of versions is transitive and total, and versions of which none
comes before the other are equal.
-/

namespace PluginCatalog

namespace Identifier

/-- Numbers stand before words. -/
def kind : Identifier → Nat
  | numeric _ => 0
  | alphanumeric _ => 1

/-- The value of a number; words have none. -/
def number : Identifier → Nat
  | numeric n => n
  | alphanumeric _ => 0

/-- The text of a word; numbers have none. -/
def word : Identifier → String
  | numeric _ => ""
  | alphanumeric w => w

theorem compare_eq : Identifier.compare =
    compareLex (compareOn kind) (compareLex (compareOn number) (compareOn word)) := by
  funext a b
  cases a with
  | numeric m =>
    cases b with
    | numeric n => simp [Identifier.compare, compareLex, compareOn, kind, number, word]
    | alphanumeric w => rfl
  | alphanumeric v =>
    cases b with
    | numeric n => rfl
    | alphanumeric w => simp [Identifier.compare, compareLex, compareOn, kind, number, word]

instance : Std.TransCmp Identifier.compare := by
  rw [compare_eq]
  infer_instance

instance : Std.LawfulEqCmp Identifier.compare where
  eq_of_compare {a b} h := by
    cases a with
    | numeric m =>
      cases b with
      | numeric n => exact congrArg numeric (Std.LawfulEqOrd.eq_of_compare h)
      | alphanumeric w => cases h
    | alphanumeric v =>
      cases b with
      | numeric n => cases h
      | alphanumeric w => exact congrArg alphanumeric (Std.LawfulEqOrd.eq_of_compare h)

end Identifier

namespace Version

theorem comparePreRelease_eq : comparePreRelease =
    compareLex (compareOn List.isEmpty) (List.compareLex Identifier.compare) := by
  funext a b
  cases a with
  | nil =>
    cases b with
    | nil => rfl
    | cons j b => rfl
  | cons i a =>
    cases b with
    | nil => rfl
    | cons j b => simp [comparePreRelease, compareLex, compareOn]

instance : Std.TransCmp comparePreRelease := by
  rw [comparePreRelease_eq]
  infer_instance

instance : Std.TransCmp fun a b : Version => comparePreRelease a.preRelease b.preRelease where
  eq_swap := (inferInstance : Std.OrientedCmp comparePreRelease).eq_swap
  isLE_trans := (inferInstance : Std.TransCmp comparePreRelease).isLE_trans

instance : Std.TransCmp Version.compare :=
  inferInstanceAs (Std.TransCmp (compareLex (compareOn major)
    (compareLex (compareOn minor) (compareLex (compareOn patch)
      fun a b => comparePreRelease a.preRelease b.preRelease))))

theorem precedes_trans {a b c : Version} (hab : a.precedes b) (hbc : b.precedes c) :
    a.precedes c := by
  unfold precedes at *
  exact Std.TransCmp.isLE_trans hab hbc

theorem precedes_total (a b : Version) : a.precedes b || b.precedes a := by
  have h : a.compare b = (b.compare a).swap := Std.OrientedCmp.eq_swap
  unfold precedes
  rw [h]
  cases b.compare a <;> rfl

theorem compare_eq_eq_iff {v w : Version} : v.compare w = .eq ↔ v = w := by
  constructor
  · intro h
    simp only [Version.compare, comparePreRelease_eq, compareLex, Ordering.then_eq_eq,
      Std.LawfulEqOrd.compare_eq_iff_eq] at h
    obtain ⟨hmajor, hminor, hpatch, -, hids⟩ := h
    obtain ⟨major, minor, patch, ids⟩ := v
    rw [Version.mk.injEq]
    exact ⟨hmajor, hminor, hpatch, Std.LawfulEqCmp.eq_of_compare hids⟩
  · rintro rfl
    have hself : v.compare v = .eq := Std.ReflCmp.compare_self
    exact hself

theorem precedes_antisymm {a b : Version} (hab : a.precedes b) (hba : b.precedes a) : a = b := by
  unfold precedes at *
  exact compare_eq_eq_iff.1 (Std.OrientedCmp.isLE_antisymm hab hba)

end Version

end PluginCatalog
