import Mathlib.Data.List.Nodup
import PluginCatalog.Proofs.Store.FailedMerges

/-!
# Merging one store after the other

* `mergeEach` merges stores into one, one after the other; `Offered` says what stores it meets, and
  `exec_mergeEach` what it leaves: the table `Table.absorbed`.
* `Table.mem_read_absorbed`: its rows are those that prevail (`Prevails`), of each build the row in
  the last store that has the build; `Table.nodup_build_absorbed`: if there was one row of a build
  at most, then there still is.
-/

namespace PluginCatalog

variable {σ : Type}

/-- Merges the stores at paths into the one at `present`, one after the other. -/
def mergeEach (present : Path) : List Path → Run σ Unit
  | [] => return
  | incoming :: rest => do
    let _ ← mergeStore present incoming
    mergeEach present rest

/-- At the paths standard tables are found, each when it is its turn to be merged into the store at
`present`. -/
def Offered (present : Path) : World σ → List (Path × Table) → Prop
  | _, [] => True
  | w, (incoming, t) :: rest =>
    storeAt w.files incoming = .ok (.table t) ∧ t.Standard ∧
      Offered present ((mergeStore present incoming).exec w).2 rest

/-- Of its build `r` is the row in the last store that has the build: the last one there in the
order of the keys, or the one in the first store if no later store has the build. -/
def Prevails (first : List ReadRow) (later : List (List ReadRow)) (r : ReadRow) : Prop :=
  (r ∈ first ∧ ∀ rows ∈ later, ∀ s ∈ rows, s.build ≠ r.build) ∨
    ∃ before rows after, later = before ++ rows :: after ∧ IsLatest rows r ∧
      ∀ rows' ∈ after, ∀ s ∈ rows', s.build ≠ r.build

/-! ## Rows that prevail -/

section Prevails

variable {first next rows : List ReadRow} {later : List (List ReadRow)} {r : ReadRow}

theorem Prevails.mem (h : Prevails first later r) : r ∈ first ++ later.flatten := by
  rcases h with ⟨hr, -⟩ | ⟨before, rows, after, rfl, hr, -⟩
  · exact List.mem_append_left _ hr
  · refine List.mem_append_right _ (List.mem_flatten.2 ⟨rows, ?_, hr.1⟩)
    exact List.mem_append_right _ List.mem_cons_self

/-- What prevails when the first of the later stores has been merged. -/
theorem prevails_cons (hnext : ∀ r, r ∈ next ↔
      (r ∈ first ∧ ∀ s ∈ rows, s.build ≠ r.build) ∨ IsLatest rows r) :
    Prevails first (rows :: later) r ↔ Prevails next later r := by
  constructor
  · -- The last store with the build is none of the later ones, the first of these or another one.
    rintro (⟨hr, hall⟩ | ⟨before, rows', after, heq, hr, hafter⟩)
    · obtain ⟨hrows, hlater⟩ := List.forall_mem_cons.1 hall
      exact .inl ⟨(hnext r).2 (.inl ⟨hr, hrows⟩), hlater⟩
    · cases before with
      | nil =>
        obtain ⟨rfl, rfl⟩ := List.cons.inj heq
        exact .inl ⟨(hnext r).2 (.inr hr), hafter⟩
      | cons rows'' before =>
        obtain ⟨rfl, rfl⟩ := List.cons.inj heq
        exact .inr ⟨before, rows', after, rfl, hr, hafter⟩
  · rintro (⟨hr, hlater⟩ | ⟨before, rows', after, rfl, hr, hafter⟩)
    · rcases (hnext r).1 hr with ⟨hr, hrows⟩ | hr
      · exact .inl ⟨hr, List.forall_mem_cons.2 ⟨hrows, hlater⟩⟩
      · exact .inr ⟨[], rows, later, rfl, hr, hlater⟩
    · exact .inr ⟨rows :: before, rows', after, rfl, hr, hafter⟩

/-- A build has one latest row at most. -/
theorem IsLatest.unique {s : ReadRow} (hk : (rows.map Row.key).Nodup) (hr : IsLatest rows r)
    (hs : IsLatest rows s) (hb : r.build = s.build) : r = s :=
  List.inj_on_of_nodup_map hk hr.1 hs.1
    (Key.precedes_antisymm (hs.2 r hr.1 hb) (hr.2 s hs.1 hb.symm))

end Prevails

/-! ## One merge -/

namespace Table

/-- What is read after a merge of standard tables. -/
theorem Standard.mem_read_merged {l t : Table} (hl : l.Standard) (ht : t.Standard) {r : ReadRow} :
    r ∈ (l.merged t.read).read ↔
      (r ∈ l.read ∧ ∀ s ∈ t.read, s.build ≠ r.build) ∨ IsLatest t.read r := by
  rw [Table.mem_read_merged hl ht.complete_of_mem_latest,
    mem_latest ht.nodup_key_read t.read_pairwise]

/-- **A merge keeps builds apart**: if there was one row of each build at most, then there still
is, however many rows of a build come in. -/
theorem Standard.nodup_build_merged {l t : Table} (hl : l.Standard) (ht : t.Standard)
    (hb : (l.read.map Row.build).Nodup) : ((l.merged t.read).read.map Row.build).Nodup := by
  have hs := hl.merged_read ht
  refine hs.nodup_key_read.of_map.map_on fun r hr s hr' he => ?_
  rcases (hl.mem_read_merged ht).1 hr with ⟨hrl, hrt⟩ | hrt
  · rcases (hl.mem_read_merged ht).1 hr' with ⟨hsl, -⟩ | hst
    · exact List.inj_on_of_nodup_map hb hrl hsl he
    · exact absurd he.symm (hrt s hst.1)
  · rcases (hl.mem_read_merged ht).1 hr' with ⟨-, hst⟩ | hst
    · exact absurd he (hst r hrt.1)
    · exact hrt.unique ht.nodup_key_read hst he

/-! ## A sequence of merges -/

/-- What merges make of a table, one after the other. -/
def absorbed (l : Table) (tables : List Table) : Table :=
  tables.foldl (fun l t => l.merged t.read) l

variable {l : Table} {tables : List Table}

theorem Standard.absorbed (hl : l.Standard) (ht : ∀ t ∈ tables, t.Standard) :
    (l.absorbed tables).Standard := by
  induction tables generalizing l with
  | nil => exact hl
  | cons t tables ih =>
    obtain ⟨ht, hrest⟩ := List.forall_mem_cons.1 ht
    exact ih (hl.merged_read ht) hrest

/-- **The rows after a sequence of merges** are those that prevail. -/
theorem mem_read_absorbed (hl : l.Standard) (ht : ∀ t ∈ tables, t.Standard) {r : ReadRow} :
    r ∈ (l.absorbed tables).read ↔ Prevails l.read (tables.map read) r := by
  induction tables generalizing l with
  | nil => simp [Table.absorbed, Prevails]
  | cons t tables ih =>
    obtain ⟨ht, hrest⟩ := List.forall_mem_cons.1 ht
    rw [List.map_cons, prevails_cons fun r => hl.mem_read_merged ht]
    exact ih (hl.merged_read ht) hrest

theorem nodup_build_absorbed (hl : l.Standard) (ht : ∀ t ∈ tables, t.Standard)
    (hb : (l.read.map Row.build).Nodup) : ((l.absorbed tables).read.map Row.build).Nodup := by
  induction tables generalizing l with
  | nil => exact hb
  | cons t tables ih =>
    obtain ⟨ht, hrest⟩ := List.forall_mem_cons.1 ht
    have hs := hl.merged_read ht
    exact ih hs hrest (hl.nodup_build_merged ht hb)

/-- No build is lost on the way. -/
theorem mem_build_absorbed {b : Build} : b ∈ (l.absorbed tables).read.map Row.build ↔
    b ∈ (l.read ++ (tables.map read).flatten).map Row.build := by
  induction tables generalizing l with
  | nil => simp [Table.absorbed]
  | cons t tables ih =>
    change b ∈ ((l.merged t.read).absorbed tables).read.map Row.build ↔ _
    rw [ih]
    simp only [List.map_append, List.mem_append, mem_build_read, mem_build_merged, List.map_cons,
      List.flatten_cons, or_assoc]

end Table

/-! ## Merging the stores in files -/

theorem Offered.standard {present : Path} {w : World σ} {offers : List (Path × Table)}
    (h : Offered present w offers) : ∀ t ∈ offers.map Prod.snd, t.Standard := by
  induction offers generalizing w with
  | nil => simp
  | cons offer offers ih =>
    obtain ⟨incoming, t⟩ := offer
    obtain ⟨-, ht, hrest⟩ := h
    exact List.forall_mem_cons.2 ⟨ht, ih hrest⟩

/-- **What a sequence of merges leaves**, if the path has a name and its lock can be taken: no merge
fails. -/
theorem exec_mergeEach {present : Path} (hn : ¬present.name.isEmpty) {w : World σ} {l : Table}
    {offers : List (Path × Table)} (hp : storeAt w.files present = .ok (.table l))
    (hl : l.Standard) (hlock : w.files.Lockable present [present])
    (h : Offered present w offers) :
    ∃ w', (mergeEach present (offers.map Prod.fst)).exec w = (.ok (), w') ∧
      storeAt w'.files present = .ok (.table (l.absorbed (offers.map Prod.snd))) := by
  induction offers generalizing w l with
  | nil => exact ⟨w, rfl, hp⟩
  | cons offer offers ih =>
    obtain ⟨incoming, t⟩ := offer
    obtain ⟨hi, ht, hrest⟩ := h
    have hc : ∀ r ∈ t.read, r.Complete := fun _ hr => ht.complete_of_mem_read hr
    have hstep := mergeStore_step present incoming w
    obtain ⟨hanswer, hstore⟩ := hstep.absorbed hn hp (pathExists_of_storeAt hi)
      (rowsAt_of_storeAt hi) hlock hl.layout hc
    have hlock' := hstep.lockable hlock (by simpa using pathExists_of_storeAt hp)
    obtain ⟨w', hexec, hw'⟩ := ih hstore (hl.merged_read ht) hlock' hrest
    refine ⟨w', ?_, hw'⟩
    have hfirst : (mergeStore present incoming).exec w =
        (.ok true, ((mergeStore present incoming).exec w).2) := Prod.ext hanswer rfl
    rw [List.map_cons, mergeEach, Run.exec_bind, hfirst]
    exact hexec

/-- Stores in other files, none of them the lock, are met as they are at first. -/
theorem offered_of_apart {present : Path} {w : World σ} {offers : List (Path × Table)}
    (h : ∀ x ∈ offers, storeAt w.files x.1 = .ok (.table x.2) ∧ x.2.Standard ∧
      ¬w.files.SameFile present x.1 ∧ ¬w.files.SameFile present.lock x.1) :
    Offered present w offers := by
  induction offers generalizing w with
  | nil => trivial
  | cons offer offers ih =>
    obtain ⟨incoming, t⟩ := offer
    obtain ⟨⟨hi, ht, -⟩, hrest⟩ := List.forall_mem_cons.1 h
    refine ⟨hi, ht, ih fun x hx => ?_⟩
    obtain ⟨hx, hs, hpx, hlx⟩ := hrest x hx
    have hstep := mergeStore_step present incoming w
    have hex := pathExists_of_storeAt hx
    exact ⟨hstep.storeAt_eq hx hpx hlx, hs, mt (hstep.sameFile_of hex) hpx,
      mt (hstep.sameFile_of hex) hlx⟩

end PluginCatalog
