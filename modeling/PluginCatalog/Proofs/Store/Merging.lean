import Mathlib.Data.List.Induction
import PluginCatalog.Proofs.Store.Standard
import PluginCatalog.Store.Merge

/-!
# What a merge leaves in a table

Two notions of key meet in a merge: rows are replaced by key, and belong together by build.

* `mem_latest_iff`: the latest row of each build is its last one; `mem_latest`: of rows in ascending
  order with different keys, it is the one that no other row of its build comes after.
* `Table.merged` is what a merge makes of a table; `Table.merge_eq_ok` and `Table.merge_inv` are
  when.
* `Table.mem_read_merged`: after rows of which the latest are complete were merged into a standard
  table, its rows are those of builds that do not come in, and the latest of the rows that do;
  `Table.Standard.merged`: it is standard again.
* `Table.mem_build_merged`: whatever the table, it has the builds of both sides.
-/

namespace PluginCatalog

/-! ## The latest row of every build -/

theorem latest_concat (rows : List ReadRow) (r : ReadRow) :
    latest (rows ++ [r]) = putBuild r (latest rows) := by
  simp [latest, List.foldl_append]

/-- Of every build there is one latest row. -/
theorem nodup_build_latest (rows : List ReadRow) : ((latest rows).map Row.build).Nodup := by
  induction rows using List.reverseRecOn with
  | nil => simp [latest]
  | append_singleton rows r ih =>
    rw [latest_concat]
    exact nodup_putBy ih

/-- The latest rows are rows of all builds. -/
theorem mem_build_latest {rows : List ReadRow} {b : Build} :
    b ∈ (latest rows).map Row.build ↔ b ∈ rows.map Row.build := by
  induction rows using List.reverseRecOn with
  | nil => simp [latest]
  | append_singleton rows r ih =>
    have hr : b ∈ (putBuild r (latest rows)).map Row.build ↔
        b = r.build ∨ b ∈ (latest rows).map Row.build := mem_map_putBy fun _ h => h
    rw [latest_concat, hr, ih, List.map_append, List.mem_append, List.map_singleton,
      List.mem_singleton, or_comm]

theorem nodup_key_latest (rows : List ReadRow) : ((latest rows).map Row.key).Nodup := by
  have hb : (latest rows).Pairwise fun a b => a.build ≠ b.build :=
    List.pairwise_map.1 (nodup_build_latest rows)
  refine List.pairwise_map.2 (hb.imp fun {a b} hne he => hne ?_)
  exact Row.build_eq_of_key_eq he

theorem mem_of_mem_latest {rows : List ReadRow} {r : ReadRow} (h : r ∈ latest rows) :
    r ∈ rows := by
  induction rows using List.reverseRecOn with
  | nil => simp [latest] at h
  | append_singleton rows s ih =>
    rw [latest_concat] at h
    rcases eq_or_mem_of_mem_putBy h with rfl | h
    · simp
    · exact List.mem_append_left _ (ih h)

/-- No row of the build of `r` among `rows` comes after `r` in the order of the keys. -/
def IsLatest (rows : List ReadRow) (r : ReadRow) : Prop :=
  r ∈ rows ∧ ∀ s ∈ rows, s.build = r.build → s.key.precedes r.key

/-- **The latest rows**, for rows in ascending order with different keys. -/
theorem mem_latest {rows : List ReadRow} (hk : (rows.map Row.key).Nodup)
    (ho : rows.Pairwise fun a b => a.key.precedes b.key) {r : ReadRow} :
    r ∈ latest rows ↔ IsLatest rows r := by
  unfold IsLatest
  induction rows using List.reverseRecOn with
  | nil => simp [latest]
  | append_singleton rows s ih =>
    -- `s` comes last: it is the latest of its build, and leaves the others as they are.
    rw [List.map_append, List.nodup_append] at hk
    obtain ⟨hk, -, hne⟩ := hk
    obtain ⟨ho, -, hle⟩ := List.pairwise_append.1 ho
    have hs : ∀ x ∈ rows, x.key.precedes s.key := fun x hx => hle x hx s (by simp)
    have hks : ∀ x ∈ rows, x.key ≠ s.key := fun x hx =>
      hne x.key (List.mem_map_of_mem hx) s.key (by simp)
    rw [latest_concat, putBuild, mem_putBy (nodup_build_latest rows), ih hk ho]
    simp only [List.mem_append, List.mem_singleton]
    constructor
    · rintro (rfl | ⟨⟨hr, hmax⟩, hb⟩)
      · refine ⟨.inr rfl, ?_⟩
        rintro x (hx | rfl) -
        · exact hs x hx
        · exact Key.precedes_refl _
      · refine ⟨.inl hr, ?_⟩
        rintro x (hx | rfl) hxb
        · exact hmax x hx hxb
        · exact absurd hxb.symm hb
    · rintro ⟨hr | rfl, hmax⟩
      · refine .inr ⟨⟨hr, fun x hx hxb => hmax x (.inl hx) hxb⟩, fun hb => hks r hr ?_⟩
        exact Key.precedes_antisymm (hs r hr) (hmax s (.inr rfl) hb.symm)
      · exact .inl rfl

/-- **The latest row of a build** is its last one. -/
theorem mem_latest_iff {rows : List ReadRow} {r : ReadRow} :
    r ∈ latest rows ↔ (rowsOf r.build rows).getLast? = some r := by
  induction rows using List.reverseRecOn with
  | nil => simp [latest, rowsOf]
  | append_singleton rows s ih =>
    rw [latest_concat, putBuild, mem_putBy (nodup_build_latest rows), ih]
    by_cases hb : s.build = r.build
    · -- `s` is the last row of its build, so that `r` is `s`.
      have hrows : rowsOf r.build (rows ++ [s]) = rowsOf r.build rows ++ [s] := by
        simp [rowsOf, hb]
      rw [hrows, List.getLast?_concat, Option.some.injEq]
      exact ⟨fun h => (h.resolve_right fun h => h.2 hb.symm).symm, fun h => .inl h.symm⟩
    · have hrows : rowsOf r.build (rows ++ [s]) = rowsOf r.build rows := by
        simp [rowsOf, hb]
      rw [hrows]
      refine ⟨fun h => (h.resolve_left ?_).1, fun h => .inr ⟨h, fun he => hb he.symm⟩⟩
      rintro rfl
      exact hb rfl

/-- Every build that comes up has a latest row. -/
theorem exists_mem_latest {rows : List ReadRow} {r : ReadRow} (h : r ∈ rows) :
    ∃ s ∈ latest rows, s.build = r.build :=
  List.mem_map.1 (mem_build_latest.2 (List.mem_map_of_mem h))

/-! ## Removing what is replaced under another spelling -/

theorem mem_shadowedKeys {present incoming : List ReadRow} {k : Key} :
    k ∈ shadowedKeys present incoming ↔
      ∃ r ∈ incoming, ∃ s ∈ present, s.build = r.build ∧ s.key = k ∧ k ≠ r.key := by
  simp only [shadowedKeys, List.mem_flatMap, List.mem_filter, List.mem_map, mem_rowsOf,
    bne_iff_ne]
  grind

namespace Table

theorem mem_erase {t : Table} {keys : List Key} {s : StoredRow} :
    s ∈ (t.erase keys).rows ↔ s ∈ t.rows ∧ s.key ∉ keys := by
  simp [erase]

theorem nodup_key_erase {t : Table} (h : (t.rows.map Row.key).Nodup) (keys : List Key) :
    ((t.erase keys).rows.map Row.key).Nodup :=
  (List.filter_sublist.map Row.key).nodup h

/-- A row stays, and is not replaced by key, exactly if its build does not come in. Thus no row of
another build is removed. -/
theorem mem_erase_shadowed {t : Table} {incoming : List ReadRow} {s : StoredRow} :
    (s ∈ (t.erase (shadowedKeys t.read incoming)).rows ∧ ∀ r ∈ incoming, s.key ≠ r.key) ↔
      s ∈ t.rows ∧ ∀ r ∈ incoming, s.build ≠ r.build := by
  rw [mem_erase, and_assoc]
  refine and_congr_right fun hs => ⟨?_, ?_⟩
  · rintro ⟨hsh, hne⟩ r hr hb
    have hread : readRow s ∈ t.read := mem_read.2 ⟨s, hs, rfl⟩
    exact hsh (mem_shadowedKeys.2 ⟨r, hr, readRow s, hread, hb, rfl, hne r hr⟩)
  · intro hb
    refine ⟨fun hsh => ?_, fun r hr he => hb r hr (Row.build_eq_of_key_eq he)⟩
    obtain ⟨r, hr, x, -, hxb, hxk, -⟩ := mem_shadowedKeys.1 hsh
    have hsx : s.build = x.build := Row.build_eq_of_key_eq hxk.symm
    exact hb r hr (hsx.trans hxb)

/-! ## The merge -/

theorem upsertRow_eq_ok (t : Table) {r : ReadRow} (h : r.Complete) :
    t.upsertRow r = .ok { t with rows := putRow (storedReadRow r) t.rows } := by
  have hr : r.missing? true = none := h
  unfold upsertRow
  rw [hr]

theorem foldlM_upsertRow_eq_ok (t : Table) {incoming : List ReadRow}
    (hi : ∀ r ∈ incoming, r.Complete) :
    incoming.foldlM upsertRow t = .ok { t with rows := putRows incoming t.rows } := by
  induction incoming generalizing t with
  | nil => rfl
  | cons r incoming ih =>
    rw [List.foldlM_cons, upsertRow_eq_ok t (hi r List.mem_cons_self)]
    exact ih _ fun s hs => hi s (List.mem_cons_of_mem r hs)

theorem complete_of_foldlM_upsertRow {t t' : Table} {incoming : List ReadRow}
    (h : incoming.foldlM upsertRow t = .ok t') : ∀ r ∈ incoming, r.Complete := by
  induction incoming generalizing t with
  | nil => simp
  | cons r incoming ih =>
    rw [List.foldlM_cons] at h
    have hr : r.Complete := by
      cases hm : r.missing? true with
      | none => exact hm
      | some column => simp [upsertRow, hm, bind, Except.bind] at h
    rw [upsertRow_eq_ok t hr] at h
    intro s hs
    rcases List.mem_cons.1 hs with rfl | hs
    · exact hr
    · exact ih h s hs

/-- An upsert into a standard table succeeds if the rows are complete. -/
theorem upsert_eq_ok {t : Table} (hl : t.layout = .standard) {incoming : List ReadRow}
    (hi : ∀ r ∈ incoming, r.Complete) :
    t.upsert incoming = .ok { t with rows := putRows incoming t.rows } := by
  have h : t.upsert incoming = incoming.foldlM upsertRow t := by simp only [upsert, hl]
  exact h.trans (foldlM_upsertRow_eq_ok t hi)

/-- An upsert that succeeds put complete rows into a table with unique keys. -/
theorem upsert_inv {t t' : Table} {incoming : List ReadRow} (h : t.upsert incoming = .ok t') :
    t.layout = .standard ∧ (∀ r ∈ incoming, r.Complete) ∧
      t' = { t with rows := putRows incoming t.rows } := by
  cases hl : t.layout with
  | nullable => simp [upsert, hl] at h
  | standard =>
    have hf : incoming.foldlM upsertRow t = .ok t' := by simpa only [upsert, hl] using h
    have hi := complete_of_foldlM_upsertRow hf
    rw [upsert_eq_ok hl hi] at h
    exact ⟨rfl, hi, by rw [← Except.ok.inj h, hl]⟩

/-- What a merge makes of a table. -/
def merged (t : Table) (incoming : List ReadRow) : Table :=
  let kept := (t.erase (shadowedKeys t.read (latest incoming))).rows
  { t with rows := putRows (latest incoming) kept }

/-- Nothing comes in. -/
@[simp] theorem merged_nil (t : Table) : t.merged [] = t := by
  have hf : t.rows.filter (fun _ => true) = t.rows := List.filter_eq_self.2 fun _ _ => rfl
  simp [merged, latest, shadowedKeys, putRows, erase, hf]

theorem merge_inv {t t' : Table} {incoming : List ReadRow} {report : MergeReport}
    (h : t.merge incoming = .ok (t', report)) :
    t.layout = .standard ∧ (∀ r ∈ latest incoming, r.Complete) ∧ t' = t.merged incoming := by
  unfold merge at h
  cases hu : (t.erase (shadowedKeys t.read (latest incoming))).upsert (latest incoming) with
  | error cause => simp [hu, Except.map] at h
  | ok u =>
    obtain ⟨hl, hi, rfl⟩ := upsert_inv hu
    simp only [hu, Except.map, Except.ok.injEq, Prod.mk.injEq] at h
    refine ⟨hl, hi, ?_⟩
    rw [← h.1]
    rfl

theorem merge_eq_ok {t : Table} (hl : t.layout = .standard) {incoming : List ReadRow}
    (hi : ∀ r ∈ incoming, r.Complete) :
    t.merge incoming = .ok (t.merged incoming, mergeReport t.read (latest incoming)) := by
  have hk : (t.erase (shadowedKeys t.read (latest incoming))).layout = .standard := hl
  unfold merge
  simp only [upsert_eq_ok hk fun r hr => hi r (mem_of_mem_latest hr)]
  rfl

/-- What is stored after a merge: the rows of builds that do not come in, and the latest of the
rows that do. -/
theorem mem_rows_merged {t : Table} (h : (t.rows.map Row.key).Nodup) {incoming : List ReadRow}
    {s : StoredRow} :
    s ∈ (t.merged incoming).rows ↔
      (s ∈ t.rows ∧ ∀ r ∈ incoming, s.build ≠ r.build) ∨
        ∃ r ∈ latest incoming, s = storedReadRow r := by
  unfold merged
  rw [mem_putRows (nodup_key_latest incoming) (nodup_key_erase h _), mem_erase_shadowed]
  refine or_congr_left (and_congr_right fun _ => ⟨fun hb r hr he => ?_, fun hb r hr => ?_⟩)
  · obtain ⟨x, hx, hxb⟩ := exists_mem_latest hr
    exact hb x hx (he.trans hxb.symm)
  · exact hb r (mem_of_mem_latest hr)

/-- A merge keeps a table standard if the latest rows are complete. -/
theorem Standard.merged {t : Table} (h : t.Standard) {incoming : List ReadRow}
    (hi : ∀ r ∈ latest incoming, r.Complete) : (t.merged incoming).Standard where
  layout := h.layout
  complete := by
    intro s hs
    rcases (mem_rows_merged h.keys).1 hs with ⟨hs, -⟩ | ⟨r, hr, rfl⟩
    · exact h.complete s hs
    · exact ⟨hi r hr, rfl⟩
  keys := nodup_putRows (nodup_key_erase h.keys _)

/-- The latest rows of a standard table are complete. -/
theorem Standard.complete_of_mem_latest {t : Table} (h : t.Standard) :
    ∀ r ∈ latest t.read, r.Complete := fun _ hr => h.complete_of_mem_read (mem_of_mem_latest hr)

/-- A merge of standard tables is standard. -/
theorem Standard.merged_read {t incoming : Table} (h : t.Standard) (hi : incoming.Standard) :
    (t.merged incoming.read).Standard := h.merged hi.complete_of_mem_latest

/-- **What is read after a merge**: the rows of builds that do not come in, and the latest of the
rows that do. -/
theorem mem_read_merged {t : Table} (h : t.Standard) {incoming : List ReadRow}
    (hi : ∀ r ∈ latest incoming, r.Complete) {r : ReadRow} :
    r ∈ (t.merged incoming).read ↔
      (r ∈ t.read ∧ ∀ s ∈ incoming, s.build ≠ r.build) ∨ r ∈ latest incoming := by
  rw [mem_read]
  constructor
  · rintro ⟨s, hs, rfl⟩
    rcases (mem_rows_merged h.keys).1 hs with ⟨hs, hb⟩ | ⟨x, hx, rfl⟩
    · exact .inl ⟨mem_read.2 ⟨s, hs, rfl⟩, fun x hx he => hb x hx he.symm⟩
    · rw [readRow_storedReadRow (hi x hx)]
      exact .inr hx
  · rintro (⟨hr, hb⟩ | hr)
    · obtain ⟨s, hs, rfl⟩ := mem_read.1 hr
      exact ⟨s, (mem_rows_merged h.keys).2 (.inl ⟨hs, fun x hx he => hb x hx he.symm⟩), rfl⟩
    · have hs := (mem_rows_merged h.keys).2 (.inr ⟨r, hr, rfl⟩)
      exact ⟨storedReadRow r, hs, readRow_storedReadRow (hi r hr)⟩

/-- The builds after a merge are those of both sides, whatever the table. -/
theorem mem_build_merged {t : Table} {incoming : List ReadRow} {b : Build} :
    b ∈ (t.merged incoming).rows.map Row.build ↔
      b ∈ t.rows.map Row.build ∨ b ∈ incoming.map Row.build := by
  unfold merged
  rw [mem_build_putRows, mem_build_latest]
  refine ⟨Or.imp_left fun h => ?_, fun h => ?_⟩
  · obtain ⟨s, hs, rfl⟩ := List.mem_map.1 h
    exact List.mem_map_of_mem (mem_erase.1 hs).1
  · rcases h with h | h
    · by_cases hb : b ∈ incoming.map Row.build
      · exact .inr hb
      · obtain ⟨s, hs, rfl⟩ := List.mem_map.1 h
        have hne : ∀ r ∈ latest incoming, s.build ≠ r.build := fun r hr he =>
          hb (he ▸ List.mem_map_of_mem (mem_of_mem_latest hr))
        exact .inl (List.mem_map_of_mem (mem_erase_shadowed.2 ⟨hs, hne⟩).1)
    · exact .inr h

end Table

end PluginCatalog
