import PluginCatalog.Inventory
import PluginCatalog.Proofs.Inventory.Entries
import PluginCatalog.Proofs.Store.MergingFiles

/-!
# What a query answers

* `Filter.Wants` are the criteria of a filter one by one, `Filter.admits_iff` says that they are
  what is tested.
* `aggregate_snd`: rows are aggregated into their entries unless a version among them is overlong,
  an address is missing, or some of them have names and others do not.
* `exec_plugins_all` and `plugins_all_inv`: the query for everything answers all entries of a store
  without faulty rows, and only of such a store.
* `plugins_listed`: what a query lists are the rows that it wants, each of them once.
-/

namespace PluginCatalog

variable {σ : Type}

/-! ## Criteria -/

namespace Filter

/-- What a filter asks of a row; a criterion that is absent or empty asks nothing. -/
structure Wants (f : Filter) (r : ReadRow) : Prop where
  name : ∀ n, f.name = some n → n ≠ "" → r.name = some n
  /-- Any spelling of the target will do. -/
  target : ∀ t, f.target = some t → t ≠ "" → ∃ s ∈ Target.spellings t, r.target = some s
  publisher : ∀ p, f.publisher = some p → p ≠ "" → r.publisher = some p
  vendor : ∀ v, f.vendor = some v → v ≠ "" → r.vendor = some v
  version : ∀ v, f.version = some v → v ≠ "" → r.version = some v
  os : ∀ o, f.os = some o → o ≠ "" → r.os = some o
  architecture : ∀ a, f.architecture = some a → a ≠ "" → r.architecture = some a
  hidden : f.includeHidden = false → r.hidden = false

theorem meets_iff {criterion cell : Option String} :
    meets criterion cell ↔ ∀ c, criterion = some c → c ≠ "" → cell = some c := by
  cases criterion with
  | none => simp [meets, isSet]
  | some c => by_cases hc : c = "" <;> simp [meets, isSet, hc]

theorem meetsTarget_iff {criterion cell : Option String} : meetsTarget criterion cell ↔
    ∀ t, criterion = some t → t ≠ "" → ∃ s ∈ Target.spellings t, cell = some s := by
  cases criterion with
  | none => simp [meetsTarget, isSet]
  | some t =>
    by_cases ht : t = ""
    · simp [meetsTarget, isSet, ht]
    · cases cell <;> simp [meetsTarget, isSet, ht]

/-- **What is tested of a row** is what the filter asks. -/
theorem admits_iff {f : Filter} {r : ReadRow} : f.admits r ↔ f.Wants r := by
  unfold admits admitsPlatform
  simp only [Bool.and_eq_true, Bool.or_eq_true, Bool.not_eq_true', meets_iff, meetsTarget_iff]
  constructor
  · rintro ⟨⟨⟨⟨⟨⟨hname, htarget⟩, hpublisher⟩, hvendor⟩, hversion⟩, hos, harch⟩, hhidden⟩
    refine ⟨hname, htarget, hpublisher, hvendor, hversion, hos, harch, fun hi => ?_⟩
    exact hhidden.resolve_left fun h => by simp [hi] at h
  · intro h
    refine ⟨⟨⟨⟨⟨⟨h.name, h.target⟩, h.publisher⟩, h.vendor⟩, h.version⟩, h.os, h.architecture⟩, ?_⟩
    cases hi : f.includeHidden with
    | true => exact .inl rfl
    | false => exact .inr (h.hidden hi)

/-- The filter without criteria admits every row. -/
theorem admits_all (r : ReadRow) : ({} : Filter).admits r :=
  admits_iff.2 ⟨nofun, nofun, nofun, nofun, nofun, nofun, nofun, nofun⟩

end Filter

/-! ## Aggregating rows -/

theorem hasVersion_iff {r : ReadRow} :
    hasVersion r ↔ Version.isWritten r.version = .ok true := by
  unfold hasVersion Version.isWritten
  cases r.version with
  | none => simp [Version.parse?]
  | some t =>
    simp only [Option.bind_some, Version.ofText?, Version.parse?]
    rcases Version.parse t with e | v
    · cases e <;> simp
    · simp

variable {imagePrefix : String} {rows : List ReadRow}

/-- The fault of rows is that of the first one that has one. -/
theorem survey_snd (imagePrefix : String) (before rows : List ReadRow) :
    (survey imagePrefix before rows).2 = rows.findSome? (faultOf imagePrefix) := by
  induction rows generalizing before with
  | nil => rfl
  | cons r rest ih =>
    unfold survey
    cases hf : faultOf imagePrefix r with
    | some fault => simp [hf]
    | none => simp [hf, ih]

/-- **What rows are aggregated into**, and when they are. -/
theorem aggregate_snd (imagePrefix : String) (rows : List ReadRow) :
    (aggregate imagePrefix rows).2 =
      match rows.findSome? (faultOf imagePrefix) with
      | some fault => .error fault
      | none =>
        if mixedNames (entries imagePrefix (rows.filter hasVersion)) then .error .mixedKinds
        else .ok (entries imagePrefix (rows.filter hasVersion)) := by
  rw [← survey_snd imagePrefix [] rows]
  unfold aggregate
  rcases survey imagePrefix [] rows with ⟨remarks, _ | fault⟩ <;> rfl

theorem aggregate_ok {es : List Entry} (h : (aggregate imagePrefix rows).2 = .ok es) :
    es = entries imagePrefix (rows.filter hasVersion) := by
  rw [aggregate_snd] at h
  split at h
  · cases h
  · split at h
    · cases h
    · exact (Except.ok.inj h).symm

/-- Rows that are aggregated have no fault. -/
theorem faultOf_of_aggregate_ok {es : List Entry} (h : (aggregate imagePrefix rows).2 = .ok es) :
    ∀ r ∈ rows, faultOf imagePrefix r = none := by
  rw [aggregate_snd] at h
  split at h
  · cases h
  next hnone => exact List.findSome?_eq_none_iff.1 hnone

theorem name_mem_of_mem_entries {e : Entry} (he : e ∈ entries imagePrefix rows) :
    ∃ r ∈ rows, e.name = r.name := by
  obtain ⟨k, hk, rfl⟩ := List.mem_map.1 he
  obtain ⟨r, hr, rfl⟩ := List.mem_map.1 (mem_entryKeys.1 hk)
  exact ⟨r, hr, rfl⟩

/-- Rows without faults that have names are aggregated. -/
theorem aggregate_eq_ok (hf : ∀ r ∈ rows, faultOf imagePrefix r = none)
    (hn : ∀ r ∈ rows, r.name.isSome) :
    (aggregate imagePrefix rows).2 = .ok (entries imagePrefix (rows.filter hasVersion)) := by
  have hmixed : mixedNames (entries imagePrefix (rows.filter hasVersion)) = false := by
    unfold mixedNames
    rw [Bool.and_eq_false_iff]
    refine .inl (List.any_eq_false.2 fun e he => ?_)
    obtain ⟨r, hr, hname⟩ := name_mem_of_mem_entries he
    have hsome := hn r (List.mem_filter.1 hr).1
    simp [hname, Option.isSome_iff_ne_none.1 hsome]
  rw [aggregate_snd, List.findSome?_eq_none_iff.2 hf]
  simp [hmixed]

theorem query_of_ne_latest {f : Filter} (hf : f.version ≠ some Filter.latest)
    (imagePrefix : String) (rows : List ReadRow) :
    query imagePrefix f rows = aggregate imagePrefix (rows.filter f.admits) := if_neg hf

/-! ## Executing queries -/

theorem exec_notes {α : Type} (level : α → Level) (text : α → String) (l : List α)
    (w : World σ) :
    ∃ journal, (forIn l PUnit.unit fun a _ => do
        Run.note (level a) (text a)
        pure (ForInStep.yield PUnit.unit) : Run σ PUnit).exec w = (.ok (), { w with journal }) := by
  induction l generalizing w with
  | nil => exact ⟨w.journal, rfl⟩
  | cons a l ih =>
    obtain ⟨journal, h⟩ := ih (w.noting (level a) (text a))
    refine ⟨journal, ?_⟩
    rw [List.forIn_cons, Run.exec_bind, Run.exec_bind, Run.exec_note]
    exact h

/-- A query answers from the rows of the store, and changes nothing but the journal. -/
theorem exec_plugins (i : Inventory) (f : Filter) {w : World σ} {rows : List ReadRow}
    (h : rowsAt w.files i.storePath = .ok rows) :
    ∃ journal, (i.plugins f).exec w =
      ((query i.imagePrefix f rows).2.mapError .fault, { w with journal }) := by
  obtain ⟨journal, hnotes⟩ := exec_notes Inventory.remarkLevel Remark.message
    (query i.imagePrefix f rows).1 w
  refine ⟨journal, ?_⟩
  unfold Inventory.plugins
  rw [Run.exec_bind, exec_readStore, h]
  dsimp only [Except.mapError]
  rw [Run.exec_bind, hnotes]
  rcases (query i.imagePrefix f rows).2 <;> rfl

/-- A query that answers has read the store. -/
theorem query_of_exec_plugins {i : Inventory} {f : Filter} {w w' : World σ} {es : List Entry}
    {rows : List ReadRow} (hr : rowsAt w.files i.storePath = .ok rows)
    (h : (i.plugins f).exec w = (.ok es, w')) : (query i.imagePrefix f rows).2 = .ok es := by
  obtain ⟨journal, hexec⟩ := exec_plugins i f hr
  exact eq_ok_of_mapError (Prod.mk.inj (hexec.symm.trans h)).1

/-- A row without an overlong number that has an address has no fault. -/
theorem faultOf_eq_none {r : ReadRow} {b : Bool} (hv : Version.isWritten r.version = .ok b)
    (hu : r.uri.isSome) : faultOf imagePrefix r = none := by
  have hnone : r.uri.isNone = false := Option.isNone_eq_false_iff.2 hu
  unfold faultOf
  rw [hv]
  cases b with
  | true => simp [hnone]
  | false => rfl

/-- A query without faulty rows answers. -/
theorem exec_plugins_ok {i : Inventory} {f : Filter} {w : World σ} {rows : List ReadRow}
    (hr : rowsAt w.files i.storePath = .ok rows) (hf : f.version ≠ some Filter.latest)
    (hfault : ∀ r ∈ rows.filter f.admits, faultOf i.imagePrefix r = none)
    (hn : ∀ r ∈ rows.filter f.admits, r.name.isSome) :
    ∃ w', (i.plugins f).exec w =
      (.ok (entries i.imagePrefix ((rows.filter f.admits).filter hasVersion)), w') := by
  obtain ⟨journal, hexec⟩ := exec_plugins i f hr
  rw [query_of_ne_latest hf, aggregate_eq_ok hfault hn] at hexec
  exact ⟨_, hexec⟩

/-! ## Queries for everything -/

theorem query_all (imagePrefix : String) (rows : List ReadRow) :
    query imagePrefix {} rows = aggregate imagePrefix rows := by
  have hlatest : ({} : Filter).version ≠ some Filter.latest := by simp
  rw [query_of_ne_latest hlatest, List.filter_eq_self.2 fun r _ => Filter.admits_all r]

/-- A standard store without faulty rows has all its entries answered. -/
theorem exec_plugins_all {i : Inventory} {w : World σ} {l : Table}
    (hl : storeAt w.files i.storePath = .ok (.table l)) (hs : l.Standard)
    (hfault : ∀ r ∈ l.read, faultOf i.imagePrefix r = none) :
    ∃ w', (i.plugins {}).exec w =
      (.ok (entries i.imagePrefix (l.read.filter hasVersion)), w') := by
  obtain ⟨journal, hexec⟩ := exec_plugins i {} (rowsAt_of_storeAt hl)
  rw [query_all, aggregate_eq_ok hfault fun r hr => (hs.complete_of_mem_read hr).name] at hexec
  exact ⟨_, hexec⟩

/-- What is answered are all entries, and no row is faulty. -/
theorem plugins_all_inv {i : Inventory} {w w' : World σ} {l : Table} {es : List Entry}
    (hl : storeAt w.files i.storePath = .ok (.table l))
    (h : (i.plugins {}).exec w = (.ok es, w')) :
    (∀ r ∈ l.read, faultOf i.imagePrefix r = none) ∧
      es = entries i.imagePrefix (l.read.filter hasVersion) := by
  have hquery := query_of_exec_plugins (rowsAt_of_storeAt hl) h
  rw [query_all] at hquery
  exact ⟨faultOf_of_aggregate_ok hquery, aggregate_ok hquery⟩

/-! ## What a query lists -/

/-- **A query lists the rows that it wants**, each of them once, in entries that ascend by plugin
and target. -/
theorem plugins_listed {i : Inventory} {f : Filter} {w w' : World σ} {l : Table}
    {es : List Entry} (hl : storeAt w.files i.storePath = .ok (.table l)) (hs : l.Standard)
    (hf : f.version ≠ some Filter.latest) (h : (i.plugins f).exec w = (.ok es, w')) :
    (∃ rows : List ReadRow, rows.Nodup ∧
      (∀ r, r ∈ rows ↔ r ∈ l.read ∧ Version.isWritten r.version = .ok true ∧ f.Wants r) ∧
      (listed es).Perm (rows.map (listedAs i.imagePrefix))) ∧
    (es.Pairwise fun d e => (compare d.name e.name).then (compare d.target e.target) = .lt) ∧
    ∀ e ∈ es, e.WellFormed := by
  have hquery := query_of_exec_plugins (rowsAt_of_storeAt hl) h
  rw [query_of_ne_latest hf] at hquery
  obtain rfl := aggregate_ok hquery
  have hv : ∀ r ∈ (l.read.filter f.admits).filter hasVersion, hasVersion r :=
    fun r hr => (List.mem_filter.1 hr).2
  refine ⟨⟨(l.read.filter f.admits).filter hasVersion, ?_, fun r => ?_, listed_entries hv⟩,
    entries_ascending _ _, fun e he => wellFormed_of_mem_entries hv he⟩
  · exact (hs.nodup_key_read.of_map Row.key).filter _ |>.filter _
  · simp only [List.mem_filter, hasVersion_iff, Filter.admits_iff, and_assoc]
    exact and_congr_right fun _ => and_comm

/-- Rows in two spellings of the target, one hidden, one without a version, and two of other
targets. -/
theorem plugins_listed_spellings :
    let row (name target version : String) (hidden : Int) : StoredRow :=
      { sampleRow name target version with hidden := .integer hidden }
    let l : Table := ⟨.standard, [row "apps" "kubernetes" "v1.10.0" 0, row "apps" "k8s" "v1.9.0" 0,
      row "apps" "k8s" "newest" 0, row "apps" "K8S" "v2.0.0" 1, row "apps" "tmc" "v1.0.0" 0,
      row "cluster" "K8s" "v1.0.0" 0]⟩
    let i : Inventory := ⟨"/", "r.io"⟩
    let f : Filter := { target := some "K8S", includeHidden := false }
    let w : World Unit := ⟨⟨[], [(["plugin_inventory.db"], .file 0 (.store (.table l)))]⟩, [], ()⟩
    ∃ es w', (i.plugins f).exec w = (.ok es, w') ∧
      (∃ rows : List ReadRow, rows.Nodup ∧
        (∀ r, r ∈ rows ↔ r ∈ l.read ∧ Version.isWritten r.version = .ok true ∧ f.Wants r) ∧
        (listed es).Perm (rows.map (listedAs i.imagePrefix))) ∧
      (es.Pairwise fun d e => (compare d.name e.name).then (compare d.target e.target) = .lt) ∧
      ∀ e ∈ es, e.WellFormed := by
  intro row l i f w
  have hl : storeAt w.files i.storePath = .ok (.table l) := by rfl
  have hs : l.Standard := ⟨rfl, by decide, by decide⟩
  have hf : f.version ≠ some Filter.latest := by decide
  have hfault : ∀ r ∈ l.read.filter f.admits, faultOf i.imagePrefix r = none := by decide +kernel
  have hn : ∀ r ∈ l.read.filter f.admits, r.name.isSome := by decide +kernel
  obtain ⟨w', hexec⟩ := exec_plugins_ok (rowsAt_of_storeAt hl) hf hfault hn
  exact ⟨_, w', hexec, plugins_listed hl hs hf hexec⟩

end PluginCatalog
