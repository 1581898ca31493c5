import PluginCatalog.Proofs.Execution
import PluginCatalog.Proofs.Store.Standard

/-!
# Inserting rows

A standard table takes rows if every column of them has a value and no key comes up twice, among
the rows that are there and the new ones.

* `Table.extended t rows` is the table with the rows at its end, `Table.Admits t rows` says that it
  takes them.
* `Standard.insert_eq_ok_iff`: rows are inserted exactly if the table takes them, and then the table
  is the extended one, which is standard again (`Standard.extended`).
* `admits_append` and `admits_congr`: rows can be taken in parts and in any order.
* `Standard.read_extended_congr`: what is read afterwards does not depend on the order, and
  `read_extended_filter`: rows of another kind are read beside those that were there.
-/

namespace PluginCatalog.Table

/-- The table with rows at its end, as the catalogue stores them. -/
def extended (t : Table) (rows : List (Row (Option Bool))) : Table :=
  { t with rows := t.rows ++ rows.map storedRow }

@[simp] theorem key_storedRow (r : Row (Option Bool)) : (storedRow r).key = r.key := rfl

/-- The table takes the rows: all of their columns have values, and no two rows, of those there and
of the new ones, have one key. -/
structure Admits (t : Table) (rows : List (Row (Option Bool))) : Prop where
  complete : ∀ r ∈ rows, r.Complete ∧ r.hidden.isSome
  keys : (t.rows.map Row.key ++ rows.map Row.key).Nodup

variable {t t' : Table} {r : Row (Option Bool)} {rows rows' : List (Row (Option Bool))}

theorem map_key_extended (t : Table) (rows : List (Row (Option Bool))) :
    (t.extended rows).rows.map Row.key = t.rows.map Row.key ++ rows.map Row.key := by
  simp [extended, Function.comp_def]

@[simp] theorem extended_nil (t : Table) : t.extended [] = t := by simp [extended]

theorem extended_append (t : Table) (rows rows' : List (Row (Option Bool))) :
    t.extended (rows ++ rows') = (t.extended rows).extended rows' := by
  simp [extended]

/-! ## Rows that are taken -/

theorem Standard.admits_nil (h : t.Standard) : t.Admits [] := ⟨by simp, by simpa using h.keys⟩

/-- **Rows can be taken in parts.** -/
theorem admits_append :
    t.Admits (rows ++ rows') ↔ t.Admits rows ∧ (t.extended rows).Admits rows' := by
  constructor
  · rintro ⟨hcomplete, hkeys⟩
    rw [List.map_append, ← List.append_assoc] at hkeys
    rw [List.forall_mem_append] at hcomplete
    refine ⟨⟨hcomplete.1, ?_⟩, hcomplete.2, ?_⟩
    · exact (List.nodup_append.1 hkeys).1
    · rwa [map_key_extended]
  · rintro ⟨⟨hcomplete, -⟩, ⟨hcomplete', hkeys⟩⟩
    refine ⟨List.forall_mem_append.2 ⟨hcomplete, hcomplete'⟩, ?_⟩
    rwa [List.map_append, ← List.append_assoc, ← map_key_extended]

/-- **Rows can be taken in any order.** -/
theorem admits_congr (h : rows.Perm rows') : t.Admits rows ↔ t.Admits rows' := by
  have hkeys : (t.rows.map Row.key ++ rows.map Row.key).Perm
      (t.rows.map Row.key ++ rows'.map Row.key) := (h.map Row.key).append_left _
  constructor
  · rintro ⟨hcomplete, hnodup⟩
    exact ⟨fun r hr => hcomplete r (h.mem_iff.2 hr), hkeys.nodup_iff.1 hnodup⟩
  · rintro ⟨hcomplete, hnodup⟩
    exact ⟨fun r hr => hcomplete r (h.mem_iff.1 hr), hkeys.nodup_iff.2 hnodup⟩

/-- A standard table stays one. -/
theorem Standard.extended (h : t.Standard) (ha : t.Admits rows) : (t.extended rows).Standard where
  layout := h.layout
  complete s hs := by
    rcases List.mem_append.1 hs with hs | hs
    · exact h.complete s hs
    · obtain ⟨r, hr, rfl⟩ := List.mem_map.1 hs
      obtain ⟨hcomplete, hhidden⟩ := ha.complete r hr
      obtain ⟨flag, hflag⟩ := Option.isSome_iff_exists.1 hhidden
      refine ⟨hcomplete.withHidden _, ?_⟩
      simp [storedRow, Row.withHidden, hflag, StoredFlag.ofBool?, StoredFlag.isPresent]
  keys := by
    rw [map_key_extended]
    exact ha.keys

/-- **What is read afterwards** does not depend on the order of the rows. -/
theorem Standard.read_extended_congr (h : t.Standard) (ha : t.Admits rows) (hr : rows.Perm rows') :
    (t.extended rows).read = (t.extended rows').read := by
  refine eq_of_ascending (h.extended ha).read_ascending
    (h.extended ((admits_congr hr).1 ha)).read_ascending fun r => ?_
  have hrows : ∀ s, s ∈ (t.extended rows).rows ↔ s ∈ (t.extended rows').rows :=
    fun s => ((hr.map storedRow).append_left t.rows).mem_iff
  simp only [mem_read, hrows]

/-- **Rows of another kind** than those that are there are read beside them. -/
theorem read_extended_filter {p : ReadRow → Bool} (hold : ∀ r ∈ t.read, ¬p r)
    (hnew : ∀ r ∈ rows, p (readRow (storedRow r))) :
    (t.extended rows).read.filter p = read { t with rows := rows.map storedRow } ∧
      ((t.extended rows).read.filter fun r => !p r) = t.read := by
  have hold : ∀ s ∈ t.rows, p (readRow s) = false := fun s hs =>
    Bool.eq_false_iff.2 (hold _ (mem_read.2 ⟨s, hs, rfl⟩))
  have hnew : ∀ s ∈ rows.map storedRow, p (readRow s) := by simpa using hnew
  rw [← read_filter, ← read_filter, Table.extended, List.filter_append, List.filter_append]
  constructor
  · rw [List.filter_eq_nil_iff.2 fun s hs => by simp [hold s hs], List.filter_eq_self.2 hnew]
    rfl
  · rw [List.filter_eq_self.2 fun s hs => by simp [hold s hs],
      List.filter_eq_nil_iff.2 fun s hs => by simp [hnew s hs], List.append_nil]

/-! ## Inserting -/

/-- A row is inserted if it is complete and its key is a new one. -/
theorem Standard.insertRow_eq_ok_iff (h : t.Standard) :
    t.insertRow r = .ok t' ↔ t.Admits [r] ∧ t' = t.extended [r] := by
  have hadmits : t.Admits [r] ↔ r.missing? r.hidden.isSome = none ∧ r.key ∉ t.rows.map Row.key := by
    rw [Row.missing?_eq_none]
    constructor
    · rintro ⟨hcomplete, hkeys⟩
      refine ⟨hcomplete r List.mem_cons_self, fun hr => ?_⟩
      exact (List.nodup_append.1 hkeys).2.2 r.key hr r.key (by simp) rfl
    · rintro ⟨hcomplete, hkey⟩
      refine ⟨fun s hs => List.mem_singleton.1 hs ▸ hcomplete, ?_⟩
      refine List.nodup_append.2 ⟨h.keys, by simp, fun k hk k' hk' he => hkey ?_⟩
      obtain rfl : k' = r.key := by simpa using hk'
      exact he ▸ hk
  rw [hadmits, insertRow, h.layout]
  dsimp only
  split
  next hmissing => simp [hmissing]
  next hmissing =>
    have hany : t.rows.any (·.key == r.key) ↔ r.key ∈ t.rows.map Row.key := by simp
    split
    next hkey => simp [hany.1 hkey]
    next hkey =>
      have hnew : r.key ∉ t.rows.map Row.key := fun h => hkey (hany.2 h)
      rw [Except.ok.injEq, eq_comm, and_iff_right ⟨hmissing, hnew⟩, Table.extended, h.layout]
      rfl

/-- **Rows are inserted** exactly if the table takes them. -/
theorem Standard.insert_eq_ok_iff (h : t.Standard) :
    t.insert rows = .ok t' ↔ t.Admits rows ∧ t' = t.extended rows := by
  induction rows generalizing t with
  | nil => simp [insert, h.admits_nil, eq_comm, pure, Except.pure]
  | cons r rows ih =>
    rw [← List.singleton_append, admits_append, extended_append, and_assoc, insert,
      List.singleton_append, List.foldlM_cons, bind_eq_ok_iff]
    simp only [h.insertRow_eq_ok_iff, and_assoc, exists_and_left]
    refine and_congr_right fun hr => ?_
    simp only [exists_eq_left]
    exact ih (h.extended hr)

/-- Inserting rows keeps a table standard. -/
theorem Standard.insert (h : t.Standard) (hrows : t.insert rows = .ok t') : t'.Standard := by
  obtain ⟨ha, rfl⟩ := h.insert_eq_ok_iff.1 hrows
  exact h.extended ha

end PluginCatalog.Table
