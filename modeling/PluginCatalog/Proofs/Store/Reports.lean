import Mathlib.Data.Finset.Card
import PluginCatalog.Proofs.Store.MergingLaws

/-!
# What a merge reports

A merge counts before it writes: how many rows come in, one of each build, how many of their builds
are new, and how many are there in another form. Rows are counted one by one, and what is written
is told by keys; the numbers are those of sets of builds.

* `addedBuilds` are the builds that only the incoming rows have, `replacedBuilds` those of both
  sides of which the rows present are not just the row that wins.
* `mergeReport_latest`: the report has the numbers of these builds.
* `Table.Standard.read_merged_eq_self_iff`: a merge changes the rows of a table unless there are no
  such builds.
* `mergeStore_report`: the report of a merge of two stores in files, and what it says of the rows.
-/

namespace PluginCatalog

variable {σ : Type}

/-! ## Builds that a merge changes -/

/-- The builds of rows. -/
def builds (rows : List ReadRow) : Finset Build := (rows.map Row.build).toFinset

theorem mem_builds {rows : List ReadRow} {b : Build} :
    b ∈ builds rows ↔ ∃ r ∈ rows, r.build = b := by
  simp [builds]

/-- A build comes up exactly if it has rows. -/
theorem mem_builds_iff_rowsOf {rows : List ReadRow} {b : Build} :
    b ∈ builds rows ↔ rowsOf b rows ≠ [] := by
  rw [mem_builds, ← List.isEmpty_eq_false_iff, List.isEmpty_eq_false_iff_exists_mem]
  simp only [mem_rowsOf]

/-- The builds that come in and are not there. -/
def addedBuilds (present incoming : List ReadRow) : Finset Build :=
  builds incoming \ builds present

/-- The builds that come in and are there, but not as the one row that wins: the last one of the
build that comes in. -/
def replacedBuilds (present incoming : List ReadRow) : Finset Build :=
  {b ∈ builds incoming ∩ builds present |
    rowsOf b present ≠ (rowsOf b incoming).getLast?.toList}

section Counting

variable {present incoming : List ReadRow}

theorem mem_addedBuilds {b : Build} :
    b ∈ addedBuilds present incoming ↔ b ∈ builds incoming ∧ b ∉ builds present := by
  rw [addedBuilds, Finset.mem_sdiff]

theorem mem_replacedBuilds {b : Build} :
    b ∈ replacedBuilds present incoming ↔ (b ∈ builds incoming ∧ b ∈ builds present) ∧
      rowsOf b present ≠ (rowsOf b incoming).getLast?.toList := by
  rw [replacedBuilds, Finset.mem_filter, Finset.mem_inter]

/-- The latest row of a build is the one that wins. -/
theorem getLast?_rowsOf {r : ReadRow} (h : r ∈ latest incoming) :
    (rowsOf r.build incoming).getLast?.toList = [r] := by
  rw [mem_latest_iff.1 h]
  rfl

theorem mem_builds_of_mem_latest {r : ReadRow} (h : r ∈ latest incoming) :
    r.build ∈ builds incoming := mem_builds.2 ⟨r, mem_of_mem_latest h, rfl⟩

/-- Every build that comes in has a row that wins. -/
theorem exists_latest_of_mem_builds {b : Build} (h : b ∈ builds incoming) :
    ∃ r ∈ latest incoming, r.build = b := by
  obtain ⟨s, hs, rfl⟩ := mem_builds.1 h
  exact exists_mem_latest hs

theorem isAdded_iff {r : ReadRow} : isAdded present r ↔ r.build ∉ builds present := by
  simp [isAdded, mem_builds_iff_rowsOf]

/-- Rows without repetition are all equal to `r` only if there are none, or `r` alone. -/
theorem any_ne_iff {rows : List ReadRow} (h : rows.Nodup) {r : ReadRow} :
    rows.any (· != r) ↔ rows ≠ [] ∧ rows ≠ [r] := by
  cases rows with
  | nil => simp
  | cons s rest =>
    obtain ⟨hs, -⟩ := List.nodup_cons.1 h
    by_cases he : s = r
    · subst he
      cases rest with
      | nil => simp
      | cons s' rest =>
        have hne : s' ≠ s := fun he => hs (he ▸ List.mem_cons_self)
        simp [hne]
    · simp [he]

theorem isReplaced_iff (hk : (present.map Row.key).Nodup) {r : ReadRow} :
    isReplaced present r ↔ r.build ∈ builds present ∧ rowsOf r.build present ≠ [r] := by
  have hn : (rowsOf r.build present).Nodup := hk.of_map.filter _
  rw [isReplaced, any_ne_iff hn, mem_builds_iff_rowsOf]

/-- Rows of which there is one of each build are as many as their builds. -/
theorem countP_latest {p : ReadRow → Bool} {s : Finset Build}
    (h : ∀ b, b ∈ s ↔ ∃ r ∈ latest incoming, p r ∧ r.build = b) :
    (latest incoming).countP p = s.card := by
  have hs : s = (((latest incoming).filter p).map Row.build).toFinset := by
    ext b
    simp only [h, List.mem_toFinset, List.mem_map, List.mem_filter, and_assoc]
  have hn : (((latest incoming).filter p).map Row.build).Nodup :=
    (List.filter_sublist.map Row.build).nodup (nodup_build_latest incoming)
  rw [hs, List.toFinset_card_of_nodup hn, List.length_map, List.countP_eq_length_filter]

/-- **The report counts builds**, whatever spellings their rows are stored under. -/
theorem mergeReport_latest (hk : (present.map Row.key).Nodup) :
    mergeReport present (latest incoming) =
      ⟨(builds incoming).card, (addedBuilds present incoming).card,
        (replacedBuilds present incoming).card⟩ := by
  have hrows : (latest incoming).length = (builds incoming).card := by
    rw [← List.countP_true]
    refine countP_latest fun b => ⟨fun hb => ?_, ?_⟩
    · obtain ⟨r, hr, rfl⟩ := exists_latest_of_mem_builds hb
      exact ⟨r, hr, rfl, rfl⟩
    · rintro ⟨r, hr, -, rfl⟩
      exact mem_builds_of_mem_latest hr
  have hadded : (latest incoming).countP (isAdded present) =
      (addedBuilds present incoming).card := by
    refine countP_latest fun b => ?_
    rw [mem_addedBuilds]
    constructor
    · rintro ⟨hb, hn⟩
      obtain ⟨r, hr, rfl⟩ := exists_latest_of_mem_builds hb
      exact ⟨r, hr, isAdded_iff.2 hn, rfl⟩
    · rintro ⟨r, hr, ha, rfl⟩
      exact ⟨mem_builds_of_mem_latest hr, isAdded_iff.1 ha⟩
  have hreplaced : (latest incoming).countP (isReplaced present) =
      (replacedBuilds present incoming).card := by
    refine countP_latest fun b => ?_
    rw [mem_replacedBuilds]
    constructor
    · rintro ⟨⟨hb, hp⟩, hne⟩
      obtain ⟨r, hr, rfl⟩ := exists_latest_of_mem_builds hb
      rw [getLast?_rowsOf hr] at hne
      exact ⟨r, hr, (isReplaced_iff hk).2 ⟨hp, hne⟩, rfl⟩
    · rintro ⟨r, hr, ha, rfl⟩
      obtain ⟨hp, hne⟩ := (isReplaced_iff hk).1 ha
      rw [getLast?_rowsOf hr]
      exact ⟨⟨mem_builds_of_mem_latest hr, hp⟩, hne⟩
  rw [mergeReport, hrows, hadded, hreplaced]

end Counting

/-! ## Merges that change nothing -/

/-- Nothing is added or replaced exactly if each row that wins is there, as the only one of its
build. -/
theorem added_replaced_eq_empty_iff {present incoming : List ReadRow} :
    addedBuilds present incoming = ∅ ∧ replacedBuilds present incoming = ∅ ↔
      ∀ r ∈ latest incoming, rowsOf r.build present = [r] := by
  simp only [Finset.eq_empty_iff_forall_notMem, mem_addedBuilds, mem_replacedBuilds]
  constructor
  · rintro ⟨hadded, hreplaced⟩ r hr
    have hb := mem_builds_of_mem_latest hr
    have hp : r.build ∈ builds present := not_not.1 fun hn => hadded r.build ⟨hb, hn⟩
    have hrows := not_not.1 fun hne => hreplaced r.build ⟨⟨hb, hp⟩, hne⟩
    rw [hrows, getLast?_rowsOf hr]
  · intro h
    constructor
    · rintro b ⟨hb, hn⟩
      obtain ⟨r, hr, rfl⟩ := exists_latest_of_mem_builds hb
      refine hn (mem_builds_iff_rowsOf.2 ?_)
      rw [h r hr]
      exact List.cons_ne_nil _ _
    · rintro b ⟨⟨hb, -⟩, hne⟩
      obtain ⟨r, hr, rfl⟩ := exists_latest_of_mem_builds hb
      exact hne ((h r hr).trans (getLast?_rowsOf hr).symm)

/-- The rows of a build, where only `r` is of that build. -/
theorem rowsOf_eq_singleton {rows : List ReadRow} (hn : rows.Nodup) {b : Build} {r : ReadRow}
    (h : ∀ s, s ∈ rows ∧ s.build = b ↔ s = r) : rowsOf b rows = [r] := by
  refine List.perm_singleton.1 ((List.perm_ext_iff_of_nodup (hn.filter _) (by simp)).2 fun s => ?_)
  rw [← rowsOf, mem_rowsOf, h, List.mem_singleton]

namespace Table

variable {l i : Table}

/-- **A merge changes the rows** exactly if it adds or replaces builds. -/
theorem Standard.read_merged_eq_self_iff (hl : l.Standard) (hi : i.Standard) :
    (l.merged i.read).read = l.read ↔
      addedBuilds l.read i.read = ∅ ∧ replacedBuilds l.read i.read = ∅ := by
  have hlatest : ∀ {r}, r ∈ latest i.read ↔ IsLatest i.read r :=
    mem_latest hi.nodup_key_read i.read_pairwise
  rw [added_replaced_eq_empty_iff]
  constructor
  · intro h r hr
    refine rowsOf_eq_singleton hl.nodup_key_read.of_map fun s => ?_
    rw [← h, hl.mem_read_merged hi]
    constructor
    · rintro ⟨⟨-, hs⟩ | hs, hb⟩
      · exact absurd hb.symm (hs r (mem_of_mem_latest hr))
      · exact hs.unique hi.nodup_key_read (hlatest.1 hr) hb
    · rintro rfl
      exact ⟨.inr (hlatest.1 hr), rfl⟩
  · intro h
    refine (hl.merged_read hi).read_ext hl fun r => ?_
    rw [hl.mem_read_merged hi, ← hlatest]
    constructor
    · rintro (⟨hr, -⟩ | hr)
      · exact hr
      · exact (mem_rowsOf.1 (h r hr ▸ List.mem_singleton_self r)).1
    · intro hr
      by_cases hb : ∃ s ∈ i.read, s.build = r.build
      · obtain ⟨s, hs, he⟩ := exists_latest_of_mem_builds (mem_builds.2 hb)
        have hmem : r ∈ rowsOf s.build l.read := mem_rowsOf.2 ⟨hr, he.symm⟩
        rw [h s hs, List.mem_singleton] at hmem
        exact .inr (hmem ▸ hs)
      · exact .inl ⟨hr, fun s hs he => hb ⟨s, hs, he⟩⟩

end Table

/-! ## Stores in files -/

/-- The merge of rows into a table, with what is said about it. -/
theorem exec_mergeStore_rows {w : World σ} {present incoming : String} {l l' : Table}
    {rows : List ReadRow} {report : MergeReport} {t : FileTree}
    (hp : storeAt w.files present = .ok (.table l)) (he : w.files.pathExists incoming)
    (hi : rowsAt w.files incoming = .ok rows) (hne : rows ≠ [])
    (hlock : w.files.takeLock (Path.ofText present).lock = .ok t)
    (hkept : storeAt t present = .ok (.table l)) (hm : l.merge rows = .ok (l', report)) :
    (mergeStore present incoming).exec w =
      (.ok true, World.noting { w with files := replaceStore t present (.table l') } .info
        (s!"Merged {report.rows} row(s) from {(Path.ofText incoming).text}: "
          ++ s!"{report.added} added, {report.replaced} replaced by published data")) := by
  have hempty : rows.isEmpty = false := by simpa using hne
  have hs : Store.merge rows (.table l) = .ok (.table l', report) := by
    simp only [Store.merge, hm, Except.map]
  unfold mergeStore
  rw [if_neg (name_of_storeAt hp), Run.exec_bind, Run.exec_files]
  dsimp only
  rw [if_pos he, Run.exec_bind, exec_openStore, hp]
  dsimp only [Except.mapError]
  rw [Run.exec_bind, exec_readStore, hi]
  dsimp only [Except.mapError]
  rw [hempty, if_neg Bool.false_ne_true]
  unfold mergeRows
  rw [Run.exec_bind, exec_takeLock, hlock]
  dsimp only
  rw [Run.exec_bind, Run.exec_files]
  dsimp only
  rw [hkept]
  dsimp only
  rw [hs]
  rfl

section Files

variable {w : World σ} {present incoming : String} {l i : Table}

/-- **The report of a merge is true**: for standard tables, of which the incoming one is not empty,
it gives the number of builds that come in, of those that are new, and of those of which the rows
present are not just the row that wins. The rows are unchanged exactly if it says that none was
added or replaced. The lock of the store can be taken, and is another file. -/
theorem mergeStore_report (hp : storeAt w.files present = .ok (.table l))
    (hi : storeAt w.files incoming = .ok (.table i)) (hl : l.Standard) (his : i.Standard)
    (hne : i.read ≠ []) (hlock : w.files.Lockable present [↑present]) :
    ∃ (w' : World σ) (report : MergeReport),
      (mergeStore present incoming).exec w = (.ok true, w') ∧
      w'.journal = w.journal ++ [.activity (.note .info
        (s!"Merged {report.rows} row(s) from {(Path.ofText incoming).text}: "
          ++ s!"{report.added} added, {report.replaced} replaced by published data"))] ∧
      report.rows = (builds i.read).card ∧
      report.added = (addedBuilds l.read i.read).card ∧
      report.replaced = (replacedBuilds l.read i.read).card ∧
      (rowsAt w'.files present = rowsAt w.files present ↔
        report.added = 0 ∧ report.replaced = 0) := by
  have hm : l.merge i.read = .ok (l.merged i.read, mergeReport l.read (latest i.read)) :=
    Table.merge_eq_ok hl.layout fun r hr => his.complete_of_mem_read hr
  rw [mergeReport_latest hl.nodup_key_read] at hm
  obtain ⟨t, ht⟩ := hlock.takes
  have hkept := storeAt_takeLock hlock List.mem_cons_self ht hp
  have hexec := exec_mergeStore_rows hp (pathExists_of_storeAt hi) (rowsAt_of_storeAt hi) hne ht
    hkept hm
  refine ⟨_, _, hexec, rfl, rfl, rfl, rfl, ?_⟩
  rw [World.files_noting, rowsAt_of_storeAt (storeAt_replaceStore hkept rfl), rowsAt_of_storeAt hp,
    Except.ok.injEq, hl.read_merged_eq_self_iff his, Finset.card_eq_zero, Finset.card_eq_zero]

/-- Two spellings of one build are replaced by a third one, one row comes in as it is there, and one
build is new. -/
theorem mergeStore_report_spellings :
    let l : Table := ⟨.standard, [sampleRow "apps" "k8s" "v1", sampleRow "apps" "K8S" "v1",
      sampleRow "login" "" "v1"]⟩
    let i : Table := ⟨.standard, [sampleRow "apps" "kubernetes" "v1", sampleRow "login" "" "v1",
      sampleRow "cluster" "k8s" "v1"]⟩
    let w : World Unit := ⟨⟨[], [(["l"], .file 0 (.store (.table l))),
      (["i"], .file 1 (.store (.table i)))]⟩, [], ()⟩
    let incoming := "/i"
    ∃ (w' : World Unit) (report : MergeReport),
      (mergeStore "/l" incoming).exec w = (.ok true, w') ∧
      w'.journal = [.activity (.note .info
        (s!"Merged {report.rows} row(s) from {(Path.ofText incoming).text}: "
          ++ s!"{report.added} added, {report.replaced} replaced by published data"))] ∧
      report = ⟨3, 1, 1⟩ ∧ rowsAt w'.files "/l" ≠ rowsAt w.files "/l" := by
  intro l i w incoming
  have hl : l.Standard := ⟨rfl, by decide, by decide⟩
  have hi : i.Standard := ⟨rfl, by decide, by decide⟩
  have hp : storeAt w.files "/l" = .ok (.table l) := by rfl
  have hi' : storeAt w.files "/i" = .ok (.table i) := by rfl
  obtain ⟨w', ⟨rows, added, replaced⟩, hexec, hjournal, hrows, hadded, hreplaced, hiff⟩ :=
    mergeStore_report hp hi' hl hi (by decide +kernel) (.of_free ["l.lock"] (by rfl))
  obtain rfl : rows = 3 := hrows.trans (by decide +kernel)
  obtain rfl : added = 1 := hadded.trans (by decide +kernel)
  obtain rfl : replaced = 1 := hreplaced.trans (by decide +kernel)
  refine ⟨w', _, hexec, hjournal, rfl, fun h => ?_⟩
  exact absurd (hiff.1 h).1 (by decide)

end Files

end PluginCatalog
