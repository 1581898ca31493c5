import PluginCatalog.Proofs.Execution
import PluginCatalog.Proofs.FileTree.Locks
import PluginCatalog.Proofs.Store.Merging

/-!
# Merging the stores in files

* `MergeStep` lists what merging one store into another can do to the files, and `mergeStore_step`
  says that there is nothing else; `MergeStep.merged_table` is when it succeeds on two tables, and
  `MergeStep.table_inv` what it then leaves.
* `mergeStore_read`: what is read from the store afterwards, for standard tables. The lock of the
  store can be taken and is apart from it (`FileTree.Lockable`); that the rows to merge are read
  before the lock is taken makes it all one if it empties the file from which they come.
-/

namespace PluginCatalog

variable {σ : Type}

/-! ## Stores in files -/

/-- A store at a path is a file. -/
theorem storeAt_inv {t : FileTree} {p : Path} {store : Store} (h : storeAt t p = .ok store) :
    ∃ loc serial content, t.follow p = .ok (.taken loc (.file serial content)) ∧
      content.store? = some store := by
  unfold storeAt at h
  rcases hf : t.file? p with _ | content
  · simp [hf] at h
  · obtain ⟨loc, serial, ht⟩ := FileTree.follow_of_file? hf
    rcases hs : content.store? with _ | store'
    · simp [hf, hs] at h
    · by_cases hn : store'.hasTable
      · simp only [hf, hs, hn, if_true, Except.ok.injEq] at h
        obtain rfl := h
        exact ⟨loc, serial, content, ht, hs⟩
      · simp [hf, hs, hn] at h

/-- A store that is replaced is found at its path. -/
theorem storeAt_replaceStore {t : FileTree} {p : Path} {old new : Store}
    (h : storeAt t p = .ok old) (hn : new.hasTable) :
    storeAt (replaceStore t p new) p = .ok new := by
  obtain ⟨loc, serial, content, ht, -⟩ := storeAt_inv h
  unfold replaceStore storeAt
  rw [ht]
  simp only [FileTree.file?_setContent ht, Content.store?, hn, if_true]

/-- Replacing a store changes no other file. -/
theorem find?_replaceStore {t : FileTree} {p q : Path} (h : ¬t.SameFile p q) (store : Store) :
    (replaceStore t p store).find? q = t.find? q := by
  unfold replaceStore
  split
  next hf => exact FileTree.find?_setContent_of_not_sameFile hf h _
  next => rfl

/-- Replacing a store does not change what is one file. -/
theorem sameFile_replaceStore_iff {t : FileTree} {p q r : Path} {store : Store} :
    (replaceStore t p store).SameFile q r ↔ t.SameFile q r := by
  unfold replaceStore
  split
  · exact ⟨fun h => h.of_setContent, fun h => h.setContent _ _⟩
  · exact Iff.rfl

/-- What is at a path is seen by what it leads to. -/
theorem storeAt_congr {t t' : FileTree} {p : Path} (h : t'.find? p = t.find? p) :
    storeAt t' p = storeAt t p := by
  unfold storeAt FileTree.file?
  rw [h]

theorem rowsAt_of_storeAt {t : FileTree} {p : Path} {l : Table} (h : storeAt t p = .ok (.table l)) :
    rowsAt t p = .ok l.read := by
  simp [rowsAt, h, bind, Except.bind, Store.rows, pure, Except.pure]

/-- A path with a store leads to something. -/
theorem pathExists_of_storeAt {t : FileTree} {p : Path} {store : Store}
    (h : storeAt t p = .ok store) : t.pathExists p := by
  obtain ⟨loc, serial, content, ht, -⟩ := storeAt_inv h
  simp [FileTree.pathExists, FileTree.find?, ht]

theorem pathExists_of_rowsAt {t : FileTree} {p : Path} {rows : List ReadRow}
    (h : rowsAt t p = .ok rows) : t.pathExists p := by
  cases hs : storeAt t p with
  | error e => simp [rowsAt, hs, bind, Except.bind] at h
  | ok store => exact pathExists_of_storeAt hs

/-! ## What a merge can do -/

theorem exec_openStore (p : Path) (w : World σ) :
    (openStore p).exec w = ((storeAt w.files p).mapError .store, w) := by
  simp [openStore, Run.exec_bind]

theorem exec_readStore (p : Path) (w : World σ) :
    (readStore p).exec w = ((rowsAt w.files p).mapError .store, w) := by
  simp [readStore, Run.exec_bind]

theorem exec_takeLock (p : Path) (w : World σ) :
    (takeLock p).exec w = match w.files.takeLock p.lock with
      | .error e => (.error (.fault (.file e)), w)
      | .ok t => (.ok (), { w with files := t }) := by
  unfold takeLock
  rw [Run.exec_bind, Run.exec_files]
  cases h : w.files.takeLock p.lock <;> simp only [h] <;> rfl

/-- There are rows to merge into a store. -/
structure Merges (t : FileTree) (present incoming : Path) (store : Store) (rows : List ReadRow) :
    Prop where
  opened : storeAt t present = .ok store
  read : rowsAt t incoming = .ok rows
  nonempty : rows ≠ []

/-- What merging the store at `incoming` into the one at `present` answers, and the files after it.
In `lost` the lock has emptied the store, under another of its names. -/
inductive MergeStep (t : FileTree) (present incoming : Path) :
    Except Failure Bool → FileTree → Prop where
  | nameless (h : present.name.isEmpty) :
    MergeStep t present incoming (.error (.fault .nameless)) t
  | absent (h : t.pathExists incoming = false) : MergeStep t present incoming (.ok false) t
  | notOpened {e : StoreError} (h : storeAt t present = .error e) :
    MergeStep t present incoming (.error (.store e)) t
  | notRead {e : StoreError} (h : rowsAt t incoming = .error e) :
    MergeStep t present incoming (.error (.store e)) t
  | empty {store : Store} (hp : storeAt t present = .ok store) (hi : rowsAt t incoming = .ok []) :
    MergeStep t present incoming (.ok true) t
  | notLocked {store : Store} {rows : List ReadRow} {e : FileFault}
    (hm : Merges t present incoming store rows) (hl : t.takeLock present.lock = .error e) :
    MergeStep t present incoming (.error (.fault (.file e))) t
  | lost {store : Store} {rows : List ReadRow} {t₁ : FileTree} {e : StoreError}
    (hm : Merges t present incoming store rows) (hl : t.takeLock present.lock = .ok t₁)
    (hlost : storeAt t₁ present = .error e) :
    MergeStep t present incoming (.error (.store (.notRead .noTable))) t₁
  | refused {store : Store} {rows : List ReadRow} {t₁ : FileTree} {cause : TableFault}
    {e : StoreError} (hm : Merges t present incoming store rows)
    (hl : t.takeLock present.lock = .ok t₁) (hkept : storeAt t₁ present = .ok store)
    (hr : store.merge rows = .error cause) : MergeStep t present incoming (.error (.store e)) t₁
  | merged {store store' : Store} {rows : List ReadRow} {t₁ : FileTree} {report : MergeReport}
    (hm : Merges t present incoming store rows) (hl : t.takeLock present.lock = .ok t₁)
    (hkept : storeAt t₁ present = .ok store) (hr : store.merge rows = .ok (store', report)) :
    MergeStep t present incoming (.ok true) (replaceStore t₁ present store')

/-- A store from which a lock is apart is as it was when the lock was taken. -/
theorem storeAt_takeLock {t t₁ : FileTree} {p q : Path} {stores : List Path} {store : Store}
    (hlock : t.Lockable p stores) (hq : q ∈ stores) (hl : t.takeLock p.lock = .ok t₁)
    (h : storeAt t q = .ok store) : storeAt t₁ q = .ok store := by
  rw [storeAt_congr (FileTree.find?_takeLock_of_apart hl (pathExists_of_storeAt h)
    (hlock.apart q hq)), h]

/-- A store that is still there when a lock was taken is as it was. -/
theorem storeAt_of_takeLock {t t₁ : FileTree} {lock p : Path} {store store₁ : Store}
    (hl : t.takeLock lock = .ok t₁) (h : storeAt t p = .ok store)
    (h₁ : storeAt t₁ p = .ok store₁) : store₁ = store := by
  by_cases hs : t₁.SameFile lock p
  · have hempty : t₁.file? p = some (.text "") := FileTree.file?_of_lock hl hs
    have hnone : storeAt t₁ p = .error (.noTable p) := by
      simp [storeAt, hempty, Content.store?, Store.hasTable]
    exact absurd (h₁.symm.trans hnone) nofun
  · have hsame := storeAt_congr (FileTree.find?_takeLock hl hs)
    exact Except.ok.inj (h₁.symm.trans (hsame.trans h))

theorem mergeRows_step {present incoming : Path} {store : Store} {rows : List ReadRow}
    {w : World σ} (hm : Merges w.files present incoming store rows) :
    MergeStep w.files present incoming ((mergeRows present incoming rows).exec w).1
      ((mergeRows present incoming rows).exec w).2.files := by
  unfold mergeRows
  rw [Run.exec_bind, exec_takeLock]
  cases hl : w.files.takeLock present.lock with
  | error e => exact .notLocked hm hl
  | ok t₁ =>
    dsimp only
    rw [Run.exec_bind, Run.exec_files]
    dsimp only
    cases h₁ : storeAt t₁ present with
    | error e => exact .lost hm hl h₁
    | ok store₁ =>
      obtain rfl := storeAt_of_takeLock hl hm.opened h₁
      dsimp only
      split
      next cause hr =>
        have hnone : store₁.merge rows = .error .unreadable := by
          cases store₁ with
          | table l => cases hr
          | foreign => rfl
          | incomplete => rfl
        exact .refused hm hl h₁ hnone
      next hr => exact .refused hm hl h₁ hr
      next hr => exact .merged hm hl h₁ hr

/-- A store into which rows are merged has a table. -/
theorem Store.merge_inv {store store' : Store} {rows : List ReadRow} {report : MergeReport}
    (h : store.merge rows = .ok (store', report)) : ∃ l, store = .table l ∧
      (∀ r ∈ latest rows, r.Complete) ∧ store' = .table (l.merged rows) := by
  cases store with
  | foreign => cases h
  | incomplete => cases h
  | table l =>
    change (l.merge rows).map _ = _ at h
    rcases hl : l.merge rows with cause | ⟨l', report'⟩
    · rw [hl] at h
      cases h
    · rw [hl] at h
      obtain ⟨rfl, -⟩ := Prod.mk.inj (Except.ok.inj h)
      obtain ⟨-, hc, rfl⟩ := Table.merge_inv hl
      exact ⟨l, rfl, hc, rfl⟩

/-- **A merge does one of these things.** -/
theorem mergeStore_step (present incoming : Path) (w : World σ) :
    MergeStep w.files present incoming ((mergeStore present incoming).exec w).1
      ((mergeStore present incoming).exec w).2.files := by
  unfold mergeStore
  split
  next hn => exact .nameless hn
  rw [Run.exec_bind, Run.exec_files]
  dsimp only
  split
  · rw [Run.exec_bind, exec_openStore]
    cases hp : storeAt w.files present with
    | error e => exact .notOpened hp
    | ok store =>
      dsimp only [Except.mapError]
      rw [Run.exec_bind, exec_readStore]
      cases hi : rowsAt w.files incoming with
      | error e => exact .notRead hi
      | ok rows =>
        dsimp only [Except.mapError]
        split
        next he => exact .empty hp (List.isEmpty_iff.1 he ▸ hi)
        next he => exact mergeRows_step ⟨hp, hi, mt List.isEmpty_iff.2 he⟩
  next h => exact .absent (Bool.eq_false_iff.2 h)

/-! ## Builds -/

/-- The rows of a store at a path, if there is one and it can be read. -/
def rowsAt? (t : FileTree) (p : Path) : Option (List ReadRow) := (rowsAt t p).toOption

/-- The builds in the store at a path. -/
def buildsAt (t : FileTree) (p : Path) : List Build := ((rowsAt? t p).getD []).map Row.build

theorem buildsAt_of_rowsAt {t : FileTree} {p : Path} {rows : List ReadRow}
    (h : rowsAt t p = .ok rows) : buildsAt t p = rows.map Row.build := by
  unfold buildsAt rowsAt?
  rw [h]
  rfl

theorem mem_buildsAt_of_storeAt {t : FileTree} {p : Path} {l : Table}
    (h : storeAt t p = .ok (.table l)) {b : Build} :
    b ∈ buildsAt t p ↔ b ∈ l.rows.map Row.build := by
  rw [buildsAt_of_rowsAt (rowsAt_of_storeAt h), Table.mem_build_read]

theorem buildsAt_eq_nil {t : FileTree} {p : Path} (h : t.pathExists p = false) :
    buildsAt t p = [] := by
  have hf : t.find? p = none := by
    unfold FileTree.pathExists at h
    exact Option.isSome_eq_false_iff.1 h |> Option.isNone_iff_eq_none.1
  simp [buildsAt, rowsAt?, rowsAt, storeAt, FileTree.file?, hf, bind, Except.bind, Except.toOption]

/-- **A merge that succeeds loses no build**: whatever the tables, afterwards the store has the
builds of both sides. -/
theorem MergeStep.mem_buildsAt {t t' : FileTree} {present incoming : Path} {answer : Bool}
    (h : MergeStep t present incoming (.ok answer) t') {b : Build} :
    b ∈ buildsAt t' present ↔ b ∈ buildsAt t present ∨ b ∈ buildsAt t incoming := by
  cases h with
  | absent h => simp [buildsAt_eq_nil h]
  | empty _ hi => simp [buildsAt_of_rowsAt hi]
  | merged hm hl hkept hr =>
    obtain ⟨l, rfl, -, rfl⟩ := Store.merge_inv hr
    rw [mem_buildsAt_of_storeAt (storeAt_replaceStore hkept rfl), mem_buildsAt_of_storeAt hm.opened,
      buildsAt_of_rowsAt hm.read, Table.mem_build_merged]

/-! ## Merging standard tables -/

/-- A path that is read from a text and leads to a store has a name. -/
theorem name_of_storeAt {t : FileTree} {p : String} {store : Store}
    (h : storeAt t p = .ok store) : ¬(Path.ofText p).name.isEmpty := by
  cases hf : t.file? p with
  | none => simp [storeAt, hf] at h
  | some content => simpa using Path.name_ofText (FileTree.parts_ne_nil_of_file? hf)

/-- A merge of complete rows into a standard table succeeds under its lock, and leaves the merged
table. -/
theorem MergeStep.absorbed {t t' : FileTree} {present incoming : Path}
    {answer : Except Failure Bool} (h : MergeStep t present incoming answer t')
    (hn : ¬present.name.isEmpty) {l : Table} {rows : List ReadRow}
    (hp : storeAt t present = .ok (.table l)) (he : t.pathExists incoming)
    (hi : rowsAt t incoming = .ok rows) (hlock : t.Lockable present [present])
    (hl : l.layout = .standard) (hc : ∀ r ∈ rows, r.Complete) :
    answer = .ok true ∧ storeAt t' present = .ok (.table (l.merged rows)) := by
  have hmerge : Store.merge rows (.table l) =
      .ok (.table (l.merged rows), mergeReport l.read (latest rows)) := by
    simp only [Store.merge, Table.merge_eq_ok hl hc, Except.map]
  have hkept {t₁ : FileTree} (ht₁ : t.takeLock present.lock = .ok t₁) :
      storeAt t₁ present = .ok (.table l) :=
    storeAt_takeLock hlock List.mem_cons_self ht₁ hp
  cases h with
  | nameless h => exact absurd h hn
  | absent h => simp [he] at h
  | notOpened h => simp [hp] at h
  | notRead h => simp [hi] at h
  | empty _ hi' =>
    obtain rfl : rows = [] := Except.ok.inj (hi.symm.trans hi')
    exact ⟨rfl, by rw [hp, Table.merged_nil]⟩
  | notLocked _ ht =>
    obtain ⟨t₁, ht₁⟩ := hlock.takes
    exact absurd (ht.symm.trans ht₁) nofun
  | lost _ ht hlost => exact absurd (hlost.symm.trans (hkept ht)) nofun
  | refused hm ht hkept' hr =>
    obtain rfl := Except.ok.inj ((hkept ht).symm.trans hkept')
    obtain rfl := Except.ok.inj (hi.symm.trans hm.read)
    simp [hmerge] at hr
  | merged hm ht hkept' hr =>
    obtain rfl := Except.ok.inj ((hkept ht).symm.trans hkept')
    obtain rfl := Except.ok.inj (hi.symm.trans hm.read)
    obtain ⟨rfl, -⟩ := Prod.mk.inj (Except.ok.inj (hmerge.symm.trans hr))
    exact ⟨rfl, storeAt_replaceStore hkept' rfl⟩

/-- A merge into a table that does not fail found nothing to merge, or leaves the merged table. -/
theorem MergeStep.table_inv {t t' : FileTree} {present incoming : Path} {answer : Bool}
    (h : MergeStep t present incoming (.ok answer) t') {l : Table}
    (hp : storeAt t present = .ok (.table l)) :
    (t.pathExists incoming = false ∧ t' = t) ∨ ∃ rows, rowsAt t incoming = .ok rows ∧
      (∀ r ∈ latest rows, r.Complete) ∧ storeAt t' present = .ok (.table (l.merged rows)) := by
  cases h with
  | absent h => exact .inl ⟨h, rfl⟩
  | empty _ hi =>
    refine .inr ⟨[], hi, by simp [latest], ?_⟩
    rw [hp, Table.merged_nil]
  | merged hm _ hkept hr =>
    obtain ⟨l', rfl, hc, rfl⟩ := Store.merge_inv hr
    obtain rfl := Store.table.inj (Except.ok.inj (hp.symm.trans hm.opened))
    exact .inr ⟨_, hm.read, hc, storeAt_replaceStore hkept rfl⟩

/-- A merge of complete rows succeeds, for paths that are read from texts. -/
theorem MergeStep.merged_table {t t' : FileTree} {present incoming : String}
    {answer : Except Failure Bool} (h : MergeStep t present incoming answer t') {l : Table}
    {rows : List ReadRow} (hp : storeAt t present = .ok (.table l))
    (he : t.pathExists incoming) (hi : rowsAt t incoming = .ok rows)
    (hlock : t.Lockable present [↑present]) (hl : l.layout = .standard)
    (hc : ∀ r ∈ rows, r.Complete) :
    answer = .ok true ∧ storeAt t' present = .ok (.table (l.merged rows)) :=
  h.absorbed (name_of_storeAt hp) hp he hi hlock hl hc

/-- **What is read after a merge of standard tables**: the rows of builds that do not come in, and
of each build that does the last of its rows that come in; no two of one key. -/
theorem mergeStore_read {w : World σ} {present incoming : String} {l i : Table}
    (hp : storeAt w.files present = .ok (.table l))
    (hi : storeAt w.files incoming = .ok (.table i)) (hl : l.Standard) (hs : i.Standard)
    (hlock : w.files.Lockable present [↑present]) :
    ∃ w' rows, (mergeStore present incoming).exec w = (.ok true, w') ∧
      rowsAt w'.files present = .ok rows ∧ (rows.map Row.key).Nodup ∧
        ∀ r, r ∈ rows ↔ (r ∈ l.read ∧ ∀ s ∈ i.read, s.build ≠ r.build) ∨ IsLatest i.read r := by
  have hc : ∀ r ∈ i.read, r.Complete := fun r hr => hs.complete_of_mem_read hr
  obtain ⟨hanswer, hstore⟩ := (mergeStore_step present incoming w).merged_table hp
    (pathExists_of_storeAt hi) (rowsAt_of_storeAt hi) hlock hl.layout hc
  refine ⟨_, _, Prod.ext hanswer rfl, rowsAt_of_storeAt hstore,
    (hl.merged_read hs).nodup_key_read, ?_⟩
  intro r
  rw [Table.mem_read_merged hl hs.complete_of_mem_latest,
    mem_latest hs.nodup_key_read i.read_pairwise]

/-- Rows of one build come up in both stores, in several spellings of its target. -/
theorem mergeStore_read_spellings :
    let row (target description : String) : StoredRow :=
      { sampleRow "apps" target "v1" with description := some description }
    let l : Table := ⟨.standard, [row "k8s" "old", row "K8S" "older", row "" "other"]⟩
    let i : Table := ⟨.standard, [row "kubernetes" "newer", row "k8s" "new"]⟩
    let w : World Unit := ⟨⟨[], [(["l"], .file 0 (.store (.table l))),
      (["i"], .file 1 (.store (.table i)))]⟩, [], ()⟩
    ∃ w' rows, (mergeStore "/l" "/i").exec w = (.ok true, w') ∧
      rowsAt w'.files "/l" = .ok rows ∧ (rows.map Row.key).Nodup ∧
        ∀ r, r ∈ rows ↔ (r ∈ l.read ∧ ∀ s ∈ i.read, s.build ≠ r.build) ∨ IsLatest i.read r := by
  intro row l i w
  have hl : l.Standard := ⟨rfl, by decide, by decide⟩
  have hi : i.Standard := ⟨rfl, by decide, by decide⟩
  have hp : storeAt w.files "/l" = .ok (.table l) := by rfl
  have hi' : storeAt w.files "/i" = .ok (.table i) := by rfl
  exact mergeStore_read hp hi' hl hi (.of_free ["l.lock"] rfl)

end PluginCatalog
