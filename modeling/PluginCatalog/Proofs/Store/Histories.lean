import PluginCatalog.Inventory
import PluginCatalog.Proofs.FileTree.Ensuring
import PluginCatalog.Proofs.Store.FailedMerges
import PluginCatalog.Proofs.Store.Inserting

/-!
# The history of a store

A store comes into being and changes by calls: it is created, rows are inserted, the builds of a
plugin are inserted, another store is merged into it. Any of these may fail.

* `SoundStore t p`: there is no store at a path yet, or one with a standard table; its lock is
  another file.
* `Upholds p x`: the operation `x` leaves a sound store at `p` if it finds one, and the very same
  store if it fails. Each call does so (`StoreCall.upholds`).
* `store_afterCalls`: what is true after any calls on a path at which no file was, and to which the
  path of its lock does not lead. Whether the lock can be taken makes no difference.
-/

namespace PluginCatalog

variable {σ α β : Type}

/-! ## Sound stores -/

/-- The lock of a path does not lead to the place at which a store comes into being. -/
def LockApart (t : FileTree) (p : Path) : Prop := ¬(t.ensureDirectory p.parent).1.Meet p.lock p

instance (t : FileTree) (p : Path) : Decidable (LockApart t p) := inferInstanceAs (Decidable ¬_)

/-- No store is at a path yet, or one with a standard table, and its lock is another file. -/
inductive SoundStore (t : FileTree) (p : Path) : Prop where
  | unused (h : t.Unused p) (hlock : LockApart t p)
  | table {l : Table} (h : storeAt t p = .ok (.table l)) (hl : l.Standard)
    (hlock : ¬t.SameFile p.lock p)

theorem LockApart.ensureDirectory {t : FileTree} {p : Path} (h : LockApart t p) :
    LockApart (t.ensureDirectory p.parent).1 p := by
  rw [LockApart, FileTree.ensureDirectory_again]
  exact h

theorem storeAt_of_file?_none {t : FileTree} {p : Path} (h : t.file? p = none) :
    storeAt t p = .error (.missing p) := by
  unfold storeAt
  rw [h]

/-- How a call ends that finds a sound store at a path: it leaves a sound one, and the same one if
it fails. -/
structure Upheld (t : FileTree) (p : Path) (answer : Except Failure α) (t' : FileTree) : Prop where
  sound : SoundStore t' p
  same : ∀ e, answer = .error e → storeAt t' p = storeAt t p

theorem upheld_refl {t : FileTree} {p : Path} (h : SoundStore t p) (answer : Except Failure α) :
    Upheld t p answer t := ⟨h, fun _ _ => rfl⟩

theorem upheld_ok {t t' : FileTree} {p : Path} (h : SoundStore t' p) (a : α) :
    Upheld t p (.ok a) t' := ⟨h, nofun⟩

/-- An operation leaves a sound store at a path if it finds one, and the same one if it fails. -/
def Upholds (p : Path) (x : Run σ α) : Prop :=
  ∀ w : World σ, SoundStore w.files p → Upheld w.files p (x.exec w).1 (x.exec w).2.files

/-- A message at the end changes nothing. -/
theorem Upheld.note {t : FileTree} {p : Path} {x : Run σ α} {w : World σ}
    (h : Upheld t p (x.exec w).1 (x.exec w).2.files) (level : Level) (text : α → String) :
    let y := do Run.note level (text (← x))
    Upheld t p (y.exec w).1 (y.exec w).2.files := by
  intro y
  rw [Run.exec_bind]
  rcases hx : x.exec w with ⟨e | a, w'⟩
  · rw [hx] at h
    exact ⟨h.sound, fun e he => h.same e (by simpa using he)⟩
  · rw [hx] at h
    exact upheld_ok h.sound ()

theorem Upholds.map {p : Path} {x : Run σ α} (h : Upholds p x) (f : α → β) :
    Upholds p (f <$> x) := by
  intro w hw
  have hx := h w hw
  rw [Run.exec_map]
  refine ⟨hx.sound, fun e he => ?_⟩
  rcases ha : (x.exec w).1 with e' | a
  · exact hx.same e' ha
  · simp [ha, Except.map] at he

/-- What is done with a store that was opened upholds it if it does so with a standard table. -/
theorem upholds_openStore {p : Path} {f : Store → Run σ α}
    (h : ∀ (w : World σ) (l : Table), storeAt w.files p = .ok (.table l) → l.Standard →
      ¬w.files.SameFile p.lock p →
      Upheld w.files p ((f (.table l)).exec w).1 ((f (.table l)).exec w).2.files) :
    Upholds p (openStore p >>= f) := by
  intro w hw
  rw [Run.exec_bind, exec_openStore]
  cases hw with
  | unused hu hlock =>
    rw [storeAt_of_file?_none hu.file?]
    exact upheld_refl (.unused hu hlock) _
  | table ht hl hlock =>
    rw [ht]
    exact h w _ ht hl hlock

/-! ## Creating -/

/-- What creating a store at a path answers, and the files after it. -/
inductive CreateStep (t : FileTree) (p : Path) : Except Failure Unit → FileTree → Prop where
  | notMade {t₁ : FileTree} {e : FileFault} (h : t.ensureDirectory p.parent = (t₁, .error e)) :
    CreateStep t p (.error (.fault (.file e))) t₁
  | notCreated {t₁ : FileTree} {cause : TableFault}
    (h : t.ensureDirectory p.parent = (t₁, .ok ())) (hc : createAt t₁ p = .error cause) :
    CreateStep t p (.error (.store (.notCreated p cause))) t₁
  | created {t₁ t' : FileTree} (h : t.ensureDirectory p.parent = (t₁, .ok ()))
    (hc : createAt t₁ p = .ok t') : CreateStep t p (.ok ()) t'

/-- **Creating a store does one of these things.** -/
theorem createStore_step (p : Path) (w : World σ) :
    CreateStep w.files p ((createStore p).exec w).1 ((createStore p).exec w).2.files := by
  unfold createStore
  rw [Run.exec_bind, Run.exec_files]
  dsimp only
  rcases hd : w.files.ensureDirectory p.parent with ⟨t₁, e | ⟨⟩⟩
  · exact .notMade hd
  · dsimp only
    rw [Run.exec_bind, Run.exec_setFiles]
    dsimp only
    rcases hc : createAt t₁ p with cause | t'
    · exact .notCreated hd hc
    · exact .created hd hc

/-- A store that is created where no file is has an empty table, and a lock that does not lead to
its place is another file. -/
theorem storeAt_createAt {t t' : FileTree} {p : Path} (hf : t.file? p = none)
    (h : createAt t p = .ok t') :
    storeAt t' p = .ok (.table .empty) ∧ ∀ q, t'.SameFile q p → t.Meet q p := by
  unfold createAt at h
  split at h
  next hfollow => simp [FileTree.file?, FileTree.find?, hfollow] at hf
  next loc hfollow =>
    obtain rfl := Except.ok.inj h
    have hnew : ∀ content, (t.set loc (.file t.freshSerial content)).file? p = some content := by
      intro content
      have hfile := FileTree.follow_set_file t.freshSerial content hfollow hfollow
      rw [Spot.filled, if_pos rfl] at hfile
      simp only [FileTree.file?, FileTree.find?, hfile]
    refine ⟨?_, fun q hs => .of_set_file hfollow hs⟩
    simp only [storeAt, hnew, Content.store?, Store.hasTable, if_true]
  next => cases h
  next => cases h

/-- A store with a table stays as it is when it is created once more. -/
theorem createAt_table {t : FileTree} {p : Path} {l : Table} (h : storeAt t p = .ok (.table l)) :
    createAt t p = .ok (replaceStore t p (.table l)) := by
  obtain ⟨loc, serial, content, ht, hs⟩ := storeAt_inv h
  unfold createAt replaceStore
  simp only [ht, hs, Store.withTable]

/-- **Creating a store that is there changes no row**, and succeeds. -/
theorem createStore_table {p : Path} {w : World σ} {l : Table}
    (h : storeAt w.files p = .ok (.table l)) :
    ((createStore p).exec w).1 = .ok () ∧
      storeAt ((createStore p).exec w).2.files p = .ok (.table l) ∧
      ∀ q, ((createStore p).exec w).2.files.SameFile q p → w.files.SameFile q p := by
  obtain ⟨loc, serial, content, ht, -⟩ := storeAt_inv h
  have hf : w.files.file? p = some content := by simp [FileTree.file?, FileTree.find?, ht]
  have hmade := FileTree.ensureDirectory_of_file? hf
  have hstep := createStore_step p w
  generalize ((createStore p).exec w).1 = answer at hstep ⊢
  generalize ((createStore p).exec w).2.files = t' at hstep ⊢
  cases hstep with
  | notMade hd => simp [hmade] at hd
  | notCreated hd hc =>
    obtain ⟨rfl, -⟩ := Prod.mk.inj (hmade.symm.trans hd)
    simp [createAt_table h] at hc
  | created hd hc =>
    obtain ⟨rfl, -⟩ := Prod.mk.inj (hmade.symm.trans hd)
    rw [createAt_table h] at hc
    obtain rfl := Except.ok.inj hc
    exact ⟨rfl, storeAt_replaceStore h rfl, fun q => sameFile_replaceStore_iff.1⟩

theorem upholds_createStore (p : Path) : Upholds p (createStore p : Run σ Unit) := by
  intro w hw
  cases hw with
  | table h hl hlock =>
    obtain ⟨hok, hsame, hfiles⟩ := createStore_table h
    rw [hok]
    exact upheld_ok (.table hsame hl (mt (hfiles _) hlock)) ()
  | unused h hlock =>
    have hafter := h.ensureDirectory
    have hlock' := hlock.ensureDirectory
    have hnone : ∀ t, t.Unused p → storeAt t p = storeAt w.files p := by
      intro t ht
      rw [storeAt_of_file?_none ht.file?, storeAt_of_file?_none h.file?]
    have hstep := createStore_step p w
    generalize ((createStore p).exec w).1 = answer at hstep ⊢
    generalize ((createStore p).exec w).2.files = t' at hstep ⊢
    cases hstep with
    | notMade hd =>
      rw [hd] at hafter hlock'
      exact ⟨.unused hafter hlock', fun e _ => hnone _ hafter⟩
    | notCreated hd hc =>
      rw [hd] at hafter hlock'
      exact ⟨.unused hafter hlock', fun e _ => hnone _ hafter⟩
    | created hd hc =>
      rw [hd] at hafter
      obtain ⟨hempty, hmeet⟩ := storeAt_createAt hafter.file? hc
      rw [LockApart, hd] at hlock
      exact upheld_ok (.table hempty Table.empty_standard (mt (hmeet p.lock) hlock)) ()

/-! ## Inserting -/

/-- Rows are added all or none: the store has them, or nothing changes. -/
theorem insertInto_cases {p : Path} {w : World σ} {l : Table}
    (h : storeAt w.files p = .ok (.table l)) (rows : List (Row (Option Bool))) :
    (∃ l' w', l.insert rows = .ok l' ∧
      (insertInto p (.table l) rows).exec w = (.ok rows.length, w') ∧
      storeAt w'.files p = .ok (.table l') ∧
      ∀ q r, w'.files.SameFile q r → w.files.SameFile q r) ∨
    ∃ cause, l.insert rows = .error cause ∧
      (insertInto p (.table l) rows).exec w = (.error (.store (.notInserted cause)), w) := by
  unfold insertInto
  split
  next hnil =>
    obtain rfl := List.isEmpty_iff.1 hnil
    exact .inl ⟨l, w, rfl, rfl, h, fun q r => id⟩
  · cases hi : l.insert rows with
    | error cause =>
      simp only [Store.insert, hi, Except.map]
      exact .inr ⟨cause, rfl, rfl⟩
    | ok l' =>
      simp only [Store.insert, hi, Except.map]
      have hl' : storeAt (replaceStore w.files p (.table l')) p = .ok (.table l') :=
        storeAt_replaceStore h rfl
      exact .inl ⟨l', _, rfl, rfl, hl', fun q r => sameFile_replaceStore_iff.1⟩

theorem upheld_insertInto {p : Path} {w : World σ} {l : Table}
    (h : storeAt w.files p = .ok (.table l)) (hl : l.Standard) (hlock : ¬w.files.SameFile p.lock p)
    (rows : List (Row (Option Bool))) :
    let x : Run σ Nat := insertInto p (.table l) rows
    Upheld w.files p (x.exec w).1 (x.exec w).2.files := by
  intro x
  rcases insertInto_cases h rows with ⟨l', w', hi, hx, hl', hfiles⟩ | ⟨cause, -, hx⟩
  · rw [hx]
    exact upheld_ok (.table hl' (hl.insert hi) (mt (hfiles _ _) hlock)) _
  · rw [hx]
    exact upheld_refl (.table h hl hlock) _

theorem upholds_insertRows (p : Path) (rows : List (Row (Option Bool))) :
    Upholds p (insertRows p rows : Run σ Nat) :=
  upholds_openStore fun _ _ h hl hlock => upheld_insertInto h hl hlock rows

theorem Inventory.upholds_insert (i : Inventory) (plugin : NewPlugin) :
    Upholds i.storePath (i.insert plugin : Run σ Unit) := by
  refine upholds_openStore fun w l h hl hlock => ?_
  split
  next => exact upheld_refl (.table h hl hlock) _
  next rows hrows => exact (upheld_insertInto h hl hlock rows).note _ _

/-! ## Merging -/

theorem upholds_mergeStore (present incoming : Path) :
    Upholds present (mergeStore present incoming : Run σ Bool) := by
  intro w hw
  have hstep := mergeStore_step present incoming w
  generalize ((mergeStore present incoming).exec w).1 = answer at hstep ⊢
  generalize ((mergeStore present incoming).exec w).2.files = t' at hstep ⊢
  cases hw with
  | unused hu hlock =>
    -- Where no store is, the merge does not come to its lock.
    have hnone := storeAt_of_file?_none hu.file?
    have hneeds : ¬NeedsLock w.files present incoming := by
      rintro ⟨store, rows, hm⟩
      exact absurd (hm.opened.symm.trans hnone) nofun
    rw [hstep.files_eq hneeds]
    exact upheld_refl (.unused hu hlock) answer
  | table h hl hlock =>
    have hlock' := mt (hstep.sameFile_of (pathExists_of_storeAt h)) hlock
    by_cases hok : answer = .ok true
    · subst hok
      rcases hstep.table_inv h with ⟨-, rfl⟩ | ⟨rows, -, hc, ht⟩
      · exact upheld_ok (.table h hl hlock) true
      · exact upheld_ok (.table ht (hl.merged hc) hlock') true
    · have hsame := storeAt_congr (hstep.find?_eq (fun ha => absurd ha hok) hlock')
      exact ⟨.table (hsame.trans h) hl hlock', fun _ _ => hsame⟩

/-! ## Calls -/

/-- A call on the store at a path. -/
inductive StoreCall (p : Path) where
  | create
  | insertRows (rows : List (Row (Option Bool)))
  /-- The builds of a plugin are inserted into an inventory that has its store there. -/
  | insertPlugin (i : Inventory) (hi : i.storePath = p) (plugin : NewPlugin)
  | merge (incoming : Path)

namespace StoreCall

variable {p : Path}

/-- What a call does; what it answers besides is left out. -/
def run : StoreCall p → Run σ Unit
  | create => createStore p
  | insertRows rows => (fun _ => ()) <$> PluginCatalog.insertRows p rows
  | insertPlugin i _ plugin => i.insert plugin
  | merge incoming => (fun _ => ()) <$> mergeStore p incoming

/-- **Each call leaves a sound store, and the same one if it fails.** -/
theorem upholds (c : StoreCall p) : Upholds p (c.run : Run σ Unit) := by
  cases c with
  | create => exact upholds_createStore p
  | insertRows rows => exact (upholds_insertRows p rows).map _
  | insertPlugin i hi plugin => exact hi ▸ i.upholds_insert plugin
  | merge incoming => exact (upholds_mergeStore p incoming).map _

end StoreCall

/-- The world after calls on the store at a path, one after the other. -/
def afterCalls {p : Path} (w : World σ) (calls : List (StoreCall p)) : World σ :=
  calls.foldl (fun w c => (c.run.exec w).2) w

/-- Calls leave a sound store if they find one. -/
theorem sound_afterCalls {p : Path} {w : World σ} (h : SoundStore w.files p)
    (calls : List (StoreCall p)) : SoundStore (afterCalls w calls).files p := by
  induction calls generalizing w with
  | nil => exact h
  | cons c calls ih => exact ih (c.upholds w h).sound

/-! ## The history of a store -/

/-- **After any calls on a path at which no file was**, and to which the path of its lock does not
lead, succeeding or failing: if a file is there, it is a store in which all columns of all rows have
a value and no two rows have one key, and each of its rows is read once, in strictly ascending order
of the keys. Creating a store that is there changes no row, and whatever call comes next, the rows
stay as they are if it fails. -/
theorem store_afterCalls {p : Path} {w : World σ} (h : w.files.Unused p)
    (hlock : LockApart w.files p) (calls : List (StoreCall p)) :
    let w' := afterCalls w calls
    (w'.files.file? p = none ∨ ∃ l, storeAt w'.files p = .ok (.table l) ∧ l.Standard ∧
      (readStore p).exec w' = (.ok l.read, w') ∧ l.read.Perm (l.rows.map Table.readRow) ∧
        l.read.Pairwise fun a b => a.key.compare b.key = .lt) ∧
    (∀ l, storeAt w'.files p = .ok (.table l) → ((createStore p).exec w').1 = .ok () ∧
      storeAt ((createStore p).exec w').2.files p = .ok (.table l)) ∧
    ∀ (c : StoreCall p) (e : Failure), (c.run.exec w').1 = .error e →
      storeAt (c.run.exec w').2.files p = storeAt w'.files p := by
  intro w'
  have hsound : SoundStore w'.files p := sound_afterCalls (.unused h hlock) calls
  refine ⟨?_, fun l hl => ?_, fun c => (c.upholds w' hsound).same⟩
  swap
  · obtain ⟨hok, hsame, -⟩ := createStore_table hl
    exact ⟨hok, hsame⟩
  cases hsound with
  | unused hu => exact .inl hu.file?
  | @table l ht hl _ =>
    refine .inr ⟨l, ht, hl, ?_, l.read_perm, hl.read_ascending⟩
    rw [exec_readStore, rowsAt_of_storeAt ht]
    rfl

/-- Rows are inserted before the store is created; later a batch holds a row that is there already,
and another store spells the target of a row in a different way. -/
theorem store_afterCalls_void :
    let row (name target : String) : Row (Option Bool) :=
      (sampleRow name target "v1").withHidden (some false)
    let published : Table :=
      ⟨.standard, [{ sampleRow "apps" "k8s" "v1" with hidden := .integer 1 }]⟩
    let w : World Unit := ⟨⟨[], [(["in"], .file 0 (.store (.table published)))]⟩, [], ()⟩
    let p : Path := (Inventory.mk "/catalog" "").storePath
    let calls : List (StoreCall p) := [.insertRows [row "apps" "kubernetes"], .create,
      .insertRows [row "apps" "kubernetes", row "apps" ""],
      .insertPlugin ⟨"/catalog", ""⟩ rfl ⟨some "cluster", some "", some "", some "p", some "v",
        some "v1", [(some "v1", [⟨some "linux", some "amd64", some "d", none, some "u"⟩])]⟩,
      .insertRows [row "tools" "", row "apps" ""], .merge "/in", .create]
    w.files.Unused p ∧ LockApart w.files p ∧ (afterCalls w calls).files.isFile p ∧
    let w' := afterCalls w calls
    (w'.files.file? p = none ∨ ∃ l, storeAt w'.files p = .ok (.table l) ∧ l.Standard ∧
      (readStore p).exec w' = (.ok l.read, w') ∧ l.read.Perm (l.rows.map Table.readRow) ∧
        l.read.Pairwise fun a b => a.key.compare b.key = .lt) ∧
    (∀ l, storeAt w'.files p = .ok (.table l) → ((createStore p).exec w').1 = .ok () ∧
      storeAt ((createStore p).exec w').2.files p = .ok (.table l)) ∧
    ∀ (c : StoreCall p) (e : Failure), (c.run.exec w').1 = .error e →
      storeAt (c.run.exec w').2.files p = storeAt w'.files p := by
  intro row published w p calls
  have h : w.files.Unused p := by decide +kernel
  have hlock : LockApart w.files p := by decide +kernel
  have hf : (afterCalls w calls).files.isFile p := by decide +kernel
  exact ⟨h, hlock, hf, store_afterCalls h hlock calls⟩

end PluginCatalog
