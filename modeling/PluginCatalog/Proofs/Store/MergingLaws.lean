import PluginCatalog.Proofs.Store.MergingSequences

/-!
# Laws of merging

The rows that a merge leaves depend on the rows of both sides and on nothing else, so that merges
obey laws. Rows are compared as they are read, in the order of their keys.

* `Table.Standard.read_merged_again`: merging the same rows again changes nothing.
* `Table.Standard.read_merged_nested`: merging two tables one after the other is merging the first
  one after the second one was merged into it.
* `Table.Standard.read_merged_comm`: tables without a common build are merged in either order.
* `Table.Standard.read_merged_swap`: of two tables that agree on the builds of both, either one can
  be merged into the other.

`mergeStore_again_nested` and `mergeStore_either_order` are these laws for the stores in files.
-/

namespace PluginCatalog

variable {σ : Type}

/-- If there is one row of a build at most, every row is the latest of its build. -/
theorem isLatest_iff_mem {rows : List ReadRow} (hb : (rows.map Row.build).Nodup) {r : ReadRow} :
    IsLatest rows r ↔ r ∈ rows := by
  refine ⟨fun h => h.1, fun hr => ⟨hr, fun s hs he => ?_⟩⟩
  obtain rfl : s = r := List.inj_on_of_nodup_map hb hs hr he
  exact Key.precedes_refl _

namespace Table

variable {l i j : Table}

/-- Standard tables with the same rows are read alike. -/
theorem Standard.read_ext (hl : l.Standard) (hi : i.Standard)
    (h : ∀ r, r ∈ l.read ↔ r ∈ i.read) : l.read = i.read :=
  eq_of_ascending hl.read_ascending hi.read_ascending h

/-- The builds that are read after a merge are those of both sides. -/
theorem mem_build_read_merged {b : Build} : b ∈ (i.merged j.read).read.map Row.build ↔
    b ∈ i.read.map Row.build ∨ b ∈ j.read.map Row.build := by
  simp only [mem_build_read, mem_build_merged]

theorem forall_build_ne_merged {b : Build} : (∀ s ∈ (i.merged j.read).read, s.build ≠ b) ↔
    (∀ s ∈ i.read, s.build ≠ b) ∧ ∀ s ∈ j.read, s.build ≠ b := by
  have hmap : ∀ rows : List ReadRow, (∀ s ∈ rows, s.build ≠ b) ↔ b ∉ rows.map Row.build := by
    simp
  rw [hmap, hmap, hmap, mem_build_read_merged, not_or]

/-- The latest rows after a merge are those of builds that did not come in, and those that did. -/
theorem Standard.isLatest_merged (hi : i.Standard) (hj : j.Standard) {r : ReadRow} :
    IsLatest (i.merged j.read).read r ↔
      (IsLatest i.read r ∧ ∀ s ∈ j.read, s.build ≠ r.build) ∨ IsLatest j.read r := by
  constructor
  · rintro ⟨hr, hmax⟩
    rcases (hi.mem_read_merged hj).1 hr with ⟨hri, hrj⟩ | hrj
    · refine .inl ⟨⟨hri, fun s hs he => ?_⟩, hrj⟩
      have hsj : ∀ x ∈ j.read, x.build ≠ s.build := fun x hx => he ▸ hrj x hx
      exact hmax s ((hi.mem_read_merged hj).2 (.inl ⟨hs, hsj⟩)) he
    · exact .inr hrj
  · rintro (⟨⟨hri, hmax⟩, hrj⟩ | hrj)
    · refine ⟨(hi.mem_read_merged hj).2 (.inl ⟨hri, hrj⟩), fun s hs he => ?_⟩
      rcases (hi.mem_read_merged hj).1 hs with ⟨hsi, -⟩ | hsj
      · exact hmax s hsi he
      · exact absurd he (hrj s hsj.1)
    · refine ⟨(hi.mem_read_merged hj).2 (.inr hrj), fun s hs he => ?_⟩
      rcases (hi.mem_read_merged hj).1 hs with ⟨-, hsj⟩ | hsj
      · exact absurd he.symm (hsj r hrj.1)
      · exact hrj.2 s hsj.1 he

/-! ## The laws -/

/-- **Merging again changes nothing.** -/
theorem Standard.read_merged_again (hl : l.Standard) (hi : i.Standard) :
    ((l.merged i.read).merged i.read).read = (l.merged i.read).read := by
  have hm := hl.merged_read hi
  apply (hm.merged_read hi).read_ext hm
  intro r
  rw [hm.mem_read_merged hi, hl.mem_read_merged hi]
  constructor
  · rintro (⟨h, -⟩ | h)
    · exact h
    · exact .inr h
  · rintro (⟨hr, hne⟩ | h)
    · exact .inl ⟨.inl ⟨hr, hne⟩, hne⟩
    · exact .inr h

/-- **Merges can be nested.** -/
theorem Standard.read_merged_nested (hl : l.Standard) (hi : i.Standard) (hj : j.Standard) :
    ((l.merged i.read).merged j.read).read = (l.merged (i.merged j.read).read).read := by
  have hli := hl.merged_read hi
  have hij := hi.merged_read hj
  apply (hli.merged_read hj).read_ext (hl.merged_read hij)
  intro r
  rw [hli.mem_read_merged hj, hl.mem_read_merged hi, hl.mem_read_merged hij,
    hi.isLatest_merged hj, forall_build_ne_merged]
  constructor
  · rintro (⟨⟨hr, hri⟩ | hri, hrj⟩ | hrj)
    · exact .inl ⟨hr, hri, hrj⟩
    · exact .inr (.inl ⟨hri, hrj⟩)
    · exact .inr (.inr hrj)
  · rintro (⟨hr, hri, hrj⟩ | ⟨hri, hrj⟩ | hrj)
    · exact .inl ⟨.inl ⟨hr, hri⟩, hrj⟩
    · exact .inl ⟨.inr hri, hrj⟩
    · exact .inr hrj

/-- **Tables without a common build can be merged in either order.** -/
theorem Standard.read_merged_comm (hl : l.Standard) (hi : i.Standard) (hj : j.Standard)
    (h : ∀ r ∈ i.read, ∀ s ∈ j.read, r.build ≠ s.build) :
    ((l.merged i.read).merged j.read).read = ((l.merged j.read).merged i.read).read := by
  have hli := hl.merged_read hi
  have hlj := hl.merged_read hj
  apply (hli.merged_read hj).read_ext (hlj.merged_read hi)
  intro r
  have hi' : IsLatest i.read r → ∀ s ∈ j.read, s.build ≠ r.build :=
    fun hr s hs he => h r hr.1 s hs he.symm
  have hj' : IsLatest j.read r → ∀ s ∈ i.read, s.build ≠ r.build :=
    fun hr s hs => h s hs r hr.1
  rw [hli.mem_read_merged hj, hl.mem_read_merged hi, hlj.mem_read_merged hi,
    hl.mem_read_merged hj]
  constructor
  · rintro (⟨⟨hr, hri⟩ | hri, hrj⟩ | hrj)
    · exact .inl ⟨.inl ⟨hr, hrj⟩, hri⟩
    · exact .inr hri
    · exact .inl ⟨.inr hrj, hj' hrj⟩
  · rintro (⟨⟨hr, hrj⟩ | hrj, hri⟩ | hri)
    · exact .inl ⟨.inl ⟨hr, hri⟩, hrj⟩
    · exact .inr hrj
    · exact .inl ⟨.inr hri, hi' hri⟩

/-- What is read after a merge of tables that agree on the builds of both. -/
theorem Standard.mem_read_merged_of_agree (hi : i.Standard) (hj : j.Standard)
    (hb : (j.read.map Row.build).Nodup)
    (h : ∀ r ∈ i.read, ∀ s ∈ j.read, r.build = s.build → r = s) {r : ReadRow} :
    r ∈ (i.merged j.read).read ↔ r ∈ i.read ∨ r ∈ j.read := by
  rw [hi.mem_read_merged hj, isLatest_iff_mem hb]
  constructor
  · rintro (⟨hr, -⟩ | hr)
    · exact .inl hr
    · exact .inr hr
  · rintro (hr | hr)
    · by_cases hrj : ∃ s ∈ j.read, s.build = r.build
      · obtain ⟨s, hs, he⟩ := hrj
        obtain rfl := h r hr s hs he.symm
        exact .inr hs
      · exact .inl ⟨hr, fun s hs he => hrj ⟨s, hs, he⟩⟩
    · exact .inr hr

/-- **Of tables that agree on the builds of both, either can be merged into the other.** -/
theorem Standard.read_merged_swap (hi : i.Standard) (hj : j.Standard)
    (hib : (i.read.map Row.build).Nodup) (hjb : (j.read.map Row.build).Nodup)
    (h : ∀ r ∈ i.read, ∀ s ∈ j.read, r.build = s.build → r = s) :
    (i.merged j.read).read = (j.merged i.read).read := by
  have h' : ∀ r ∈ j.read, ∀ s ∈ i.read, r.build = s.build → r = s :=
    fun r hr s hs he => (h s hs r hr he.symm).symm
  apply (hi.merged_read hj).read_ext (hj.merged_read hi)
  intro r
  rw [hi.mem_read_merged_of_agree hj hjb h, hj.mem_read_merged_of_agree hi hib h', or_comm]

end Table

/-! ## Stores in files -/

/-- An operation answers that it is done, and then the store at `p` has these rows. -/
def Leaves (x : Run σ Bool) (w : World σ) (p : Path) (rows : List ReadRow) : Prop :=
  ∃ w', x.exec w = (.ok true, w') ∧ rowsAt w'.files p = .ok rows

section Files

variable {w : World σ} {present incoming other : String} {l i j : Table}

/-- A merge of standard tables, and what it leaves at other paths. -/
theorem exec_mergeStore_tables (hp : storeAt w.files present = .ok (.table l))
    (hi : storeAt w.files incoming = .ok (.table i)) (hl : l.Standard) (hs : i.Standard)
    (hlock : w.files.Lockable present [↑present]) :
    ∃ w', (mergeStore present incoming).exec w = (.ok true, w') ∧
      storeAt w'.files present = .ok (.table (l.merged i.read)) ∧
        MergeStep w.files present incoming (.ok true) w'.files := by
  have hstep := mergeStore_step present incoming w
  obtain ⟨hanswer, hstore⟩ := hstep.merged_table hp (pathExists_of_storeAt hi)
    (rowsAt_of_storeAt hi) hlock hl.layout fun _ hr => hs.complete_of_mem_read hr
  exact ⟨_, Prod.ext hanswer rfl, hstore, hanswer ▸ hstep⟩

theorem leaves_merge (hp : storeAt w.files present = .ok (.table l))
    (hi : storeAt w.files incoming = .ok (.table i)) (hl : l.Standard) (hs : i.Standard)
    (hlock : w.files.Lockable present [↑present]) :
    Leaves (mergeStore present incoming) w present (l.merged i.read).read := by
  obtain ⟨w', hexec, hstore, -⟩ := exec_mergeStore_tables hp hi hl hs hlock
  exact ⟨w', hexec, rowsAt_of_storeAt hstore⟩

theorem Leaves.of_bind {x y : Run σ Bool} {a : Bool} {w' : World σ} {p : Path}
    {rows : List ReadRow} (hx : x.exec w = (.ok a, w')) (hy : Leaves y w' p rows) :
    Leaves (do let _ ← x; y) w p rows := by
  obtain ⟨w'', hexec, hrows⟩ := hy
  refine ⟨w'', ?_, hrows⟩
  rw [Run.exec_bind, hx]
  exact hexec

/-- Two stores are merged into a third one. -/
theorem leaves_merges (hp : storeAt w.files present = .ok (.table l))
    (hi : storeAt w.files incoming = .ok (.table i))
    (hj : storeAt w.files other = .ok (.table j)) (hl : l.Standard) (his : i.Standard)
    (hjs : j.Standard) (hpj : ¬w.files.SameFile present other)
    (hlock : w.files.Lockable present [↑present, ↑other]) :
    Leaves (do let _ ← mergeStore present incoming; mergeStore present other) w present
      ((l.merged i.read).merged j.read).read := by
  have hown : w.files.Lockable present [↑present] := hlock.mono (by simp)
  obtain ⟨w', hexec, hstore, hstep⟩ := exec_mergeStore_tables hp hi hl his hown
  have hj' := hstep.storeAt_eq hj hpj (hlock.apart other (by simp))
  have hlock' := hstep.lockable hown (by simpa using pathExists_of_storeAt hp)
  exact .of_bind hexec (leaves_merge hstore hj' (hl.merged_read his) hjs hlock')

/-- A store is merged into a second one, and then that one into a third one. -/
theorem leaves_merge_nested (hp : storeAt w.files present = .ok (.table l))
    (hi : storeAt w.files incoming = .ok (.table i))
    (hj : storeAt w.files other = .ok (.table j)) (hl : l.Standard) (his : i.Standard)
    (hjs : j.Standard) (hpi : ¬w.files.SameFile present incoming)
    (hlock : w.files.Lockable present [↑present])
    (hlock' : w.files.Lockable incoming [↑incoming, ↑present]) :
    Leaves (do let _ ← mergeStore incoming other; mergeStore present incoming) w present
      (l.merged (i.merged j.read).read).read := by
  obtain ⟨w', hexec, hstore, hstep⟩ :=
    exec_mergeStore_tables hi hj his hjs (hlock'.mono (by simp))
  have hp' := hstep.storeAt_eq hp (mt FileTree.SameFile.symm hpi) (hlock'.apart present (by simp))
  have hown := hstep.lockable hlock (by simpa using pathExists_of_storeAt hp)
  exact .of_bind hexec (leaves_merge hp' hstore hl (his.merged_read hjs) hown)

/-- **Merging again changes nothing, and merges can be nested**: a store has the same rows after a
store was merged into it twice as after once; and after two stores were merged into it one after the
other it has the rows that it has when the second one was merged into the first one, and then the
first one into it. The locks of the stores into which rows are merged can be taken, and are apart
from the stores that are used afterwards. -/
theorem mergeStore_again_nested (hp : storeAt w.files present = .ok (.table l))
    (hi : storeAt w.files incoming = .ok (.table i))
    (hj : storeAt w.files other = .ok (.table j)) (hl : l.Standard) (his : i.Standard)
    (hjs : j.Standard) (hpi : ¬w.files.SameFile present incoming)
    (hpj : ¬w.files.SameFile present other)
    (hlock : w.files.Lockable present [↑present, ↑incoming, ↑other])
    (hlock' : w.files.Lockable incoming [↑incoming, ↑present]) :
    (∃ rows, Leaves (mergeStore present incoming) w present rows ∧
      Leaves (do let _ ← mergeStore present incoming; mergeStore present incoming) w present
        rows) ∧
    ∃ rows, Leaves (do let _ ← mergeStore present incoming; mergeStore present other) w present
        rows ∧
      Leaves (do let _ ← mergeStore incoming other; mergeStore present incoming) w present
        rows := by
  have hown : w.files.Lockable present [↑present] := hlock.mono (by simp)
  have honce := leaves_merge hp hi hl his hown
  have htwice := leaves_merges hp hi hi hl his his hpi (hlock.mono (by simp))
  have hboth := leaves_merges hp hi hj hl his hjs hpj (hlock.mono (by simp))
  have hnested := leaves_merge_nested hp hi hj hl his hjs hpi hown hlock'
  rw [hl.read_merged_again his] at htwice
  rw [← hl.read_merged_nested his hjs] at hnested
  exact ⟨⟨_, honce, htwice⟩, _, hboth, hnested⟩

/-- The stores have several spellings of one build, and the third one is empty. -/
theorem mergeStore_again_nested_spellings :
    let row (target description : String) : StoredRow :=
      { sampleRow "apps" target "v1" with description := some description }
    let l : Table := ⟨.standard, [row "k8s" "old", row "K8S" "older", row "" "other"]⟩
    let i : Table := ⟨.standard, [row "kubernetes" "newer", row "k8s" "new"]⟩
    let w : World Unit := ⟨⟨[], [(["l"], .file 0 (.store (.table l))),
      (["i"], .file 1 (.store (.table i))), (["j"], .file 2 (.store (.table .empty)))]⟩, [], ()⟩
    (∃ rows, Leaves (mergeStore "/l" "/i") w "/l" rows ∧
      Leaves (do let _ ← mergeStore "/l" "/i"; mergeStore "/l" "/i") w "/l" rows) ∧
    ∃ rows, Leaves (do let _ ← mergeStore "/l" "/i"; mergeStore "/l" "/j") w "/l" rows ∧
      Leaves (do let _ ← mergeStore "/i" "/j"; mergeStore "/l" "/i") w "/l" rows := by
  intro row l i w
  have hl : l.Standard := ⟨rfl, by decide, by decide⟩
  have hi : i.Standard := ⟨rfl, by decide, by decide⟩
  have hj : Table.empty.Standard := ⟨rfl, by decide, by decide⟩
  have hfollow : w.files.follow "/l" = .ok (.taken ["l"] (.file 0 (.store (.table l)))) := by rfl
  have hli : ¬w.files.SameFile "/l" "/i" :=
    FileTree.not_sameFile_of_serial_ne hfollow (by rfl) (by decide)
  have hlj : ¬w.files.SameFile "/l" "/j" :=
    FileTree.not_sameFile_of_serial_ne hfollow (by rfl) (by decide)
  exact mergeStore_again_nested (by rfl) (by rfl) (by rfl) hl hi hj hli hlj
    (.of_free ["l.lock"] (by rfl)) (.of_free ["i.lock"] (by rfl))

/-- **Merges come in any order**: whichever of two stores is merged into the other one, its builds
are then those of both, and its rows the same if each of the stores has one row of a build at most
and the rows of the builds of both are equal. Two stores without a common build are merged into a
third one in either order. The locks of the stores into which rows are merged can be taken, and are
apart from the stores that are used afterwards. -/
theorem mergeStore_either_order (hi : storeAt w.files incoming = .ok (.table i))
    (hj : storeAt w.files other = .ok (.table j)) (his : i.Standard) (hjs : j.Standard)
    (hilock : w.files.Lockable incoming [↑incoming]) (hjlock : w.files.Lockable other [↑other]) :
    (∃ rows rows', Leaves (mergeStore incoming other) w incoming rows ∧
      Leaves (mergeStore other incoming) w other rows' ∧
      (∀ b, b ∈ rows.map Row.build ↔ b ∈ i.read.map Row.build ∨ b ∈ j.read.map Row.build) ∧
      (∀ b, b ∈ rows'.map Row.build ↔ b ∈ i.read.map Row.build ∨ b ∈ j.read.map Row.build) ∧
      ((i.read.map Row.build).Nodup → (j.read.map Row.build).Nodup →
        (∀ r ∈ i.read, ∀ s ∈ j.read, r.build = s.build → r = s) → rows = rows')) ∧
    ∀ (present : String) (l : Table), storeAt w.files present = .ok (.table l) → l.Standard →
      ¬w.files.SameFile present incoming → ¬w.files.SameFile present other →
      w.files.Lockable present [↑present, ↑incoming, ↑other] →
      (∀ r ∈ i.read, ∀ s ∈ j.read, r.build ≠ s.build) →
        ∃ rows, Leaves (do let _ ← mergeStore present incoming; mergeStore present other) w
            present rows ∧
          Leaves (do let _ ← mergeStore present other; mergeStore present incoming) w present
            rows := by
  refine ⟨⟨_, _, leaves_merge hi hj his hjs hilock, leaves_merge hj hi hjs his hjlock, ?_, ?_, ?_⟩,
    ?_⟩
  · intro b
    exact Table.mem_build_read_merged
  · intro b
    rw [Table.mem_build_read_merged, or_comm]
  · intro hib hjb hagree
    exact his.read_merged_swap hjs hib hjb hagree
  · intro present l hp hl hpi hpj hlock hapart
    have hforth := leaves_merges hp hi hj hl his hjs hpj (hlock.mono (by simp))
    have hback := leaves_merges hp hj hi hl hjs his hpi (hlock.mono (by simp))
    rw [← hl.read_merged_comm his hjs hapart] at hback
    exact ⟨_, hforth, hback⟩

/-- Two stores with an equal row of one build in them, and two without a common build that are
merged into the first of these. -/
theorem mergeStore_either_order_shared :
    let row (name target description : String) : StoredRow :=
      { sampleRow name target "v1" with description := some description }
    let i : Table := ⟨.standard, [row "apps" "k8s" "a", row "cluster" "tmc" "b"]⟩
    let j : Table := ⟨.standard, [row "login" "global" "c", row "apps" "k8s" "a"]⟩
    let k : Table := ⟨.standard, [row "cluster" "K8S" "d", row "cluster" "kubernetes" "e"]⟩
    let w : World Unit := ⟨⟨[], [(["i"], .file 0 (.store (.table i))),
      (["j"], .file 1 (.store (.table j))), (["k"], .file 2 (.store (.table k)))]⟩, [], ()⟩
    (∃ rows, Leaves (mergeStore "/i" "/j") w "/i" rows ∧
      Leaves (mergeStore "/j" "/i") w "/j" rows ∧
      ∀ b, b ∈ rows.map Row.build ↔ b ∈ i.read.map Row.build ∨ b ∈ j.read.map Row.build) ∧
    ∃ rows, Leaves (do let _ ← mergeStore "/i" "/j"; mergeStore "/i" "/k") w "/i" rows ∧
      Leaves (do let _ ← mergeStore "/i" "/k"; mergeStore "/i" "/j") w "/i" rows := by
  intro row i j k w
  have hi : i.Standard := ⟨rfl, by decide, by decide⟩
  have hj : j.Standard := ⟨rfl, by decide, by decide⟩
  have hk : k.Standard := ⟨rfl, by decide, by decide⟩
  have hi' : storeAt w.files "/i" = .ok (.table i) := by rfl
  have hj' : storeAt w.files "/j" = .ok (.table j) := by rfl
  have hk' : storeAt w.files "/k" = .ok (.table k) := by rfl
  have hfollow : w.files.follow "/i" = .ok (.taken ["i"] (.file 0 (.store (.table i)))) := by rfl
  have hij : ¬w.files.SameFile "/i" "/j" :=
    FileTree.not_sameFile_of_serial_ne hfollow (by rfl) (by decide)
  have hik : ¬w.files.SameFile "/i" "/k" :=
    FileTree.not_sameFile_of_serial_ne hfollow (by rfl) (by decide)
  have hilock (stores : List Path) : w.files.Lockable "/i" stores :=
    .of_free ["i.lock"] (by rfl)
  have hjlock (stores : List Path) : w.files.Lockable "/j" stores :=
    .of_free ["j.lock"] (by rfl)
  have hklock (stores : List Path) : w.files.Lockable "/k" stores :=
    .of_free ["k.lock"] (by rfl)
  constructor
  · obtain ⟨⟨rows, rows', hforth, hback, hbuilds, -, hsame⟩, -⟩ :=
      mergeStore_either_order hi' hj' hi hj (hilock _) (hjlock _)
    obtain rfl := hsame (by decide +kernel) (by decide +kernel) (by decide +kernel)
    exact ⟨rows, hforth, hback, hbuilds⟩
  · exact (mergeStore_either_order hj' hk' hj hk (hjlock _) (hklock _)).2 "/i" i hi' hi hij hik
      (hilock _) (by decide +kernel)

end Files

end PluginCatalog
