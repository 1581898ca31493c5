import PluginCatalog.Store.Table

/-!
# The order of keys

Keys are compared column by column, so that their order is a linear one: `Key.precedes` is
transitive and total, and two keys of which each precedes the other are equal. Hence the rows of a
table are read in ascending order (`Table.read_pairwise`), and rows that ascend strictly are told by
which rows they are (`eq_of_ascending`). Rows can be selected before they are read or after
(`Table.read_filter`).
-/

namespace PluginCatalog

namespace Key

instance : Std.TransCmp Key.compare :=
  inferInstanceAs (Std.TransCmp (compareLex (compareOn Key.name)
    (compareLex (compareOn Key.target) (compareLex (compareOn Key.version)
      (compareLex (compareOn Key.os) (compareOn Key.architecture))))))

instance : Std.LawfulEqCmp Key.compare where
  eq_of_compare {a b} h := by
    simp only [Key.compare, Ordering.then_eq_eq, Std.LawfulEqOrd.compare_eq_iff_eq] at h
    obtain ⟨h₁, h₂, h₃, h₄, h₅⟩ := h
    cases a
    cases b
    simp_all

theorem precedes_refl (a : Key) : a.precedes a := by
  have h : a.compare a = .eq := Std.ReflCmp.compare_self
  rw [precedes, h]
  rfl

theorem precedes_trans {a b c : Key} (hab : a.precedes b) (hbc : b.precedes c) : a.precedes c := by
  unfold precedes at *
  exact Std.TransCmp.isLE_trans hab hbc

theorem precedes_total (a b : Key) : a.precedes b || b.precedes a := by
  have h : a.compare b = (b.compare a).swap := Std.OrientedCmp.eq_swap
  unfold precedes
  rw [h]
  cases b.compare a <;> rfl

theorem precedes_antisymm {a b : Key} (hab : a.precedes b) (hba : b.precedes a) : a = b := by
  unfold precedes at *
  have h : a.compare b = .eq := Std.OrientedCmp.isLE_antisymm hab hba
  exact Std.LawfulEqCmp.eq_of_compare h

end Key

/-- Rows in strictly ascending order of their keys are told by which rows they are. -/
theorem eq_of_ascending {φ : Type} {rows rows' : List (Row φ)}
    (h : rows.Pairwise fun a b => a.key.compare b.key = .lt)
    (h' : rows'.Pairwise fun a b => a.key.compare b.key = .lt)
    (hmem : ∀ r, r ∈ rows ↔ r ∈ rows') : rows = rows' := by
  have hne : ∀ {a b : Row φ}, a.key.compare b.key = .lt → a ≠ b := by
    rintro a _ hab rfl
    have hself : a.key.compare a.key = .eq := Std.ReflCmp.compare_self
    rw [hself] at hab
    cases hab
  have hperm : rows.Perm rows' := (List.perm_ext_iff_of_nodup (h.imp hne) (h'.imp hne)).2 hmem
  refine hperm.eq_of_pairwise (fun a b _ _ hab hba => ?_) h h'
  rw [Std.OrientedCmp.gt_of_lt hab] at hba
  cases hba

namespace Table

/-- The rows of a table are read in ascending order. -/
theorem read_pairwise (t : Table) : t.read.Pairwise fun a b => a.key.precedes b.key := by
  refine List.pairwise_map.2 ((stableSort_pairwise ?_ ?_ t.rows).imp fun h => h)
  · intro a b c hab hbc
    exact Key.precedes_trans hab hbc
  · intro a b
    exact Key.precedes_total a.key b.key

/-- Rows can be selected before they are read or after. -/
theorem read_filter (t : Table) (p : ReadRow → Bool) :
    read { t with rows := t.rows.filter fun r => p (readRow r) } = t.read.filter p := by
  unfold read
  rw [stableSort_filter, List.filter_map]
  · rfl
  · exact fun _ _ _ => Key.precedes_trans
  · exact fun _ _ => Key.precedes_total _ _

end Table

end PluginCatalog
