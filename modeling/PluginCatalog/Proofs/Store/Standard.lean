import PluginCatalog.Proofs.Store.KeyOrder

/-!
# Standard tables

`Table.Standard` says of a table what its layout promises: every column of every row has a value,
and no two rows have one key. Reading such a table changes nothing but the form of the flags
(`recommended_readRow`), gives complete rows (`complete_of_mem_read`) and keeps the keys unique
(`nodup_key_read`); a complete row that is written reads as it was (`readRow_storedReadRow`).

`putRows` is what an upsert makes of the rows of a standard table; what is in them afterwards is
`mem_putRows`, and of any table `mem_build_putRows` tells the builds.

`sampleRow` is a complete row, from which tables of examples are made.
-/

namespace PluginCatalog

/-- Whether a flag is there. -/
def StoredFlag.isPresent : StoredFlag → Bool
  | null => false
  | _ => true

namespace Row

variable {φ ψ : Type}

/-- Every text column of a row has a value. -/
def Complete (r : Row φ) : Prop := r.missing? true = none

instance (r : Row φ) : Decidable r.Complete := inferInstanceAs (Decidable (_ = _))

theorem Complete.columns {r : Row φ} (h : r.Complete) : ∀ c ∈ r.columns true, c.2 := by
  simpa [Complete, missing?] using h

/-- No column is missing if all texts and the flag are there. -/
theorem missing?_eq_none {r : Row φ} {flagged : Bool} :
    r.missing? flagged = none ↔ r.Complete ∧ flagged := by
  cases flagged <;> simp [Complete, missing?, columns]

theorem Complete.name {r : Row φ} (h : r.Complete) : r.name.isSome :=
  h.columns ("PluginName", r.name.isSome) (by simp [Row.columns])

theorem Complete.recommended {r : Row φ} (h : r.Complete) : r.recommended.isSome :=
  h.columns ("RecommendedVersion", r.recommended.isSome) (by simp [Row.columns])

theorem Complete.uri {r : Row φ} (h : r.Complete) : r.uri.isSome :=
  h.columns ("URI", r.uri.isSome) (by simp [Row.columns])

theorem Complete.withHidden {r : Row φ} (h : r.Complete) (hidden : ψ) :
    (r.withHidden hidden).Complete := h

end Row

namespace Table

/-- Every column of every row has a value, and no two rows have one key. -/
structure Standard (t : Table) : Prop where
  layout : t.layout = .standard
  complete : ∀ r ∈ t.rows, r.Complete ∧ r.hidden.isPresent
  keys : (t.rows.map Row.key).Nodup

/-! ## Reading -/

theorem recommended_readRow {r : StoredRow} (h : r.Complete) :
    readRow r = r.withHidden r.hidden.isSet := by
  obtain ⟨v, hv⟩ := Option.isSome_iff_exists.1 h.recommended
  simp [readRow, Row.withHidden, hv]

/-- A complete row that is written reads as it was. -/
theorem readRow_storedReadRow {r : ReadRow} (h : r.Complete) : readRow (storedReadRow r) = r := by
  have hs : (storedReadRow r).Complete := h
  rw [recommended_readRow hs]
  simp only [storedReadRow, storedRow, Row.withHidden, StoredFlag.isSet_ofBool?]

theorem mem_read {t : Table} {r : ReadRow} : r ∈ t.read ↔ ∃ s ∈ t.rows, readRow s = r := by
  rw [t.read_perm.mem_iff, List.mem_map]

/-- The builds that are read are those of the rows. -/
theorem mem_build_read {t : Table} {b : Build} :
    b ∈ t.read.map Row.build ↔ b ∈ t.rows.map Row.build := by
  have hp : (t.read.map Row.build).Perm ((t.rows.map readRow).map Row.build) :=
    t.read_perm.map Row.build
  rw [hp.mem_iff, List.map_map]
  rfl

theorem Standard.complete_of_mem_read {t : Table} (h : t.Standard) {r : ReadRow}
    (hr : r ∈ t.read) : r.Complete := by
  obtain ⟨s, hs, rfl⟩ := mem_read.1 hr
  rw [recommended_readRow (h.complete s hs).1]
  exact (h.complete s hs).1.withHidden _

/-- The rows that are read have different keys. -/
theorem Standard.nodup_key_read {t : Table} (h : t.Standard) : (t.read.map Row.key).Nodup := by
  have hp : (t.read.map Row.key).Perm ((t.rows.map readRow).map Row.key) := t.read_perm.map Row.key
  rw [hp.nodup_iff, List.map_map]
  exact h.keys

/-- Each row that is read comes strictly before those after it. -/
theorem Standard.read_ascending {t : Table} (h : t.Standard) :
    t.read.Pairwise fun a b => a.key.compare b.key = .lt := by
  have hne : t.read.Pairwise fun a b => a.key ≠ b.key := List.pairwise_map.1 h.nodup_key_read
  refine (t.read_pairwise.and hne).imp fun {a b} hab => ?_
  obtain ⟨hle, hne⟩ := hab
  rcases hc : a.key.compare b.key
  · rfl
  · exact absurd (Std.LawfulEqCmp.eq_of_compare hc) hne
  · simp [Key.precedes, hc] at hle

theorem empty_standard : empty.Standard where
  layout := rfl
  complete := by simp [empty]
  keys := by simp [empty]

/-! ## Writing -/

/-- Puts complete rows into the rows of a table, one after the other. -/
def putRows (incoming : List ReadRow) (rows : List StoredRow) : List StoredRow :=
  incoming.foldl (fun rows r => putRow (storedReadRow r) rows) rows

theorem putRows_cons (r : ReadRow) (incoming : List ReadRow) (rows : List StoredRow) :
    putRows (r :: incoming) rows = putRows incoming (putRow (storedReadRow r) rows) := rfl

@[simp] theorem key_storedReadRow (r : ReadRow) : (storedReadRow r).key = r.key := rfl

@[simp] theorem build_storedReadRow (r : ReadRow) : (storedReadRow r).build = r.build := rfl

/-- Keys stay unique. -/
theorem nodup_putRows {incoming : List ReadRow} {rows : List StoredRow}
    (h : (rows.map Row.key).Nodup) : ((putRows incoming rows).map Row.key).Nodup := by
  induction incoming generalizing rows with
  | nil => exact h
  | cons r incoming ih => exact ih (nodup_putBy h)

/-- **What rows are there after an upsert** of rows with different keys: those rows, and the rows
of other keys. -/
theorem mem_putRows {incoming : List ReadRow} {rows : List StoredRow}
    (hi : (incoming.map Row.key).Nodup) (h : (rows.map Row.key).Nodup) {s : StoredRow} :
    s ∈ putRows incoming rows ↔
      (s ∈ rows ∧ ∀ r ∈ incoming, s.key ≠ r.key) ∨ ∃ r ∈ incoming, s = storedReadRow r := by
  induction incoming generalizing rows with
  | nil => simp [putRows]
  | cons r incoming ih =>
    obtain ⟨hr, hi⟩ := List.nodup_cons.1 hi
    have hne : ∀ r' ∈ incoming, r.key ≠ r'.key := fun r' hr' he =>
      hr (he ▸ List.mem_map_of_mem hr')
    have hn : ((putRow (storedReadRow r) rows).map Row.key).Nodup := nodup_putBy h
    rw [putRows_cons, ih hi hn, putRow, mem_putBy h]
    constructor
    · rintro (⟨rfl | ⟨hs, hk⟩, hall⟩ | ⟨r', hr', rfl⟩)
      · exact .inr ⟨r, List.mem_cons_self, rfl⟩
      · refine .inl ⟨hs, fun r' hr' => ?_⟩
        rcases List.mem_cons.1 hr' with rfl | hr'
        · exact hk
        · exact hall r' hr'
      · exact .inr ⟨r', List.mem_cons_of_mem r hr', rfl⟩
    · rintro (⟨hs, hall⟩ | ⟨r', hr', rfl⟩)
      · exact .inl ⟨.inr ⟨hs, hall r List.mem_cons_self⟩,
          fun r' hr' => hall r' (List.mem_cons_of_mem r hr')⟩
      · rcases List.mem_cons.1 hr' with rfl | hr'
        · exact .inl ⟨.inl rfl, hne⟩
        · exact .inr ⟨r', hr', rfl⟩

/-- The builds after an upsert: those that were there, and those put in. -/
theorem mem_build_putRows {incoming : List ReadRow} {rows : List StoredRow} {b : Build} :
    b ∈ (putRows incoming rows).map Row.build ↔
      b ∈ rows.map Row.build ∨ b ∈ incoming.map Row.build := by
  induction incoming generalizing rows with
  | nil => simp [putRows]
  | cons r incoming ih =>
    have hr : b ∈ (putRow (storedReadRow r) rows).map Row.build ↔
        b = r.build ∨ b ∈ rows.map Row.build :=
      mem_map_putBy fun _ h => Row.build_eq_of_key_eq h
    rw [putRows_cons, ih, hr, List.map_cons, List.mem_cons, or_assoc, or_left_comm]

end Table

/-! ## Examples -/

/-- A complete row of the build of a version for one platform. -/
def sampleRow (name target version : String) : StoredRow :=
  ⟨some name, some target, some "", some version, .integer 0, some "", some "p", some "v",
    some "linux", some "amd64", some "d", some "u"⟩

end PluginCatalog
