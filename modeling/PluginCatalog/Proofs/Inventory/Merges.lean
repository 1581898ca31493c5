import PluginCatalog.Proofs.Inventory.Queries
import PluginCatalog.Proofs.Store.MergingSequences
import PluginCatalog.Proofs.Version.Numbers

/-!
# Queries after merges

Merges tell rows apart by build, and queries gather them by plugin, target and version: both take
the target that a spelling denotes. After any sequence of merges into an inventory a query lists one
artifact of each build, the one that prevails (`plugins_after_merges`).
-/

namespace PluginCatalog

variable {σ : Type}

/-- The store of an inventory has a name. -/
theorem Inventory.name_storePath (i : Inventory) : ¬i.storePath.name.isEmpty := by
  have hname : Path.ofText storeName = ⟨0, [storeName]⟩ := by decide +kernel
  have hparts : i.storePath.parts = i.directory.parts ++ [storeName] := by
    change (i.directory.append (Path.ofText storeName)).parts = _
    rw [hname]
    rfl
  unfold Path.name
  rw [hparts, List.getLast?_concat]
  decide

/-! ## Rows without faults -/

/-- A row of a standard store without an overlong number is not faulty. -/
theorem faultOf_of_short {imagePrefix : String} {l : Table} (hs : l.Standard) {r : ReadRow}
    (hr : r ∈ l.read) (hv : ∀ t, r.version = some t → Version.IsShort t) :
    faultOf imagePrefix r = none := by
  obtain ⟨b, hb⟩ : ∃ b, Version.isWritten r.version = .ok b := by
    cases hrv : r.version with
    | none => exact ⟨false, rfl⟩
    | some t => exact Version.isWritten_of_short (hv t hrv)
  exact faultOf_eq_none hb (hs.complete_of_mem_read hr).uri

/-- Of each build one artifact is listed, if there is one row of it. -/
theorem filter_listed_entries {imagePrefix : String} {rows : List ReadRow}
    (hb : (rows.map Row.build).Nodup) {r : ReadRow} (hr : r ∈ rows) (hv : hasVersion r) :
    (listed (entries imagePrefix (rows.filter hasVersion))).filter (·.1 == r.build) =
      [listedAs imagePrefix r] := by
  have hlisted : (listed (entries imagePrefix (rows.filter hasVersion))).Perm
      ((rows.filter hasVersion).map (listedAs imagePrefix)) :=
    listed_entries fun r hr => (List.mem_filter.1 hr).2
  have hnodup : ((listed (entries imagePrefix (rows.filter hasVersion))).map Prod.fst).Nodup := by
    rw [(hlisted.map Prod.fst).nodup_iff, List.map_map]
    exact (List.filter_sublist.map Row.build).nodup hb
  have hmem : listedAs imagePrefix r ∈ listed (entries imagePrefix (rows.filter hasVersion)) :=
    hlisted.mem_iff.2 (List.mem_map_of_mem (List.mem_filter.2 ⟨hr, hv⟩))
  exact filter_eq_singleton hnodup hmem

/-! ## Queries after merges -/

/-- **What is listed after any sequence of merges**: of each build in one of the stores exactly one
artifact, if its version is a written one, and it is that of the row that prevails. The lock of the
store can be taken, and is another file. -/
theorem plugins_after_merges {i : Inventory} {w : World σ} {l : Table}
    {offers : List (Path × Table)} (hl : storeAt w.files i.storePath = .ok (.table l))
    (hs : l.Standard) (hb : (l.read.map Row.build).Nodup)
    (hlock : w.files.Lockable i.storePath [i.storePath]) (ho : Offered i.storePath w offers)
    (hv : ∀ r ∈ l.read ++ (offers.map fun x => x.2.read).flatten, ∀ t, r.version = some t →
      Version.IsShort t) :
    ∃ es w', (do
        mergeEach i.storePath (offers.map Prod.fst)
        i.plugins {} : Run σ (List Entry)).exec w = (.ok es, w') ∧
      (∀ r ∈ l.read ++ (offers.map fun x => x.2.read).flatten,
        Version.isWritten r.version = .ok true →
          ∃ s, Prevails l.read (offers.map fun x => x.2.read) s ∧ s.build = r.build ∧
            (listed es).filter (·.1 == r.build) = [listedAs i.imagePrefix s]) ∧
      (∀ x ∈ listed es, ∃ s, Prevails l.read (offers.map fun x => x.2.read) s ∧
        Version.isWritten s.version = .ok true ∧ x = listedAs i.imagePrefix s) ∧
      es.Pairwise fun d e => (compare d.name e.name).then (compare d.target e.target) = .lt := by
  have htables : (offers.map fun x => x.2.read) = (offers.map Prod.snd).map Table.read := by
    rw [List.map_map]
    rfl
  rw [htables] at hv ⊢
  obtain ⟨w₁, hmerges, hstore⟩ := exec_mergeEach i.name_storePath hl hs hlock ho
  have hrows : ∀ r, r ∈ (l.absorbed (offers.map Prod.snd)).read ↔
      Prevails l.read ((offers.map Prod.snd).map Table.read) r :=
    fun r => Table.mem_read_absorbed hs ho.standard
  have hbuilds := Table.nodup_build_absorbed hs ho.standard hb
  have hstandard := hs.absorbed ho.standard
  obtain ⟨w', hquery⟩ := exec_plugins_all hstore hstandard fun r hr =>
    faultOf_of_short hstandard hr (hv r ((hrows r).1 hr).mem)
  have hexec : (do
        mergeEach i.storePath (offers.map Prod.fst)
        i.plugins {} : Run σ (List Entry)).exec w =
      (.ok (entries i.imagePrefix
        ((l.absorbed (offers.map Prod.snd)).read.filter hasVersion)), w') := by
    rw [Run.exec_bind, hmerges]
    exact hquery
  refine ⟨_, w', hexec, fun r hr hrv => ?_, fun x hx => ?_, entries_ascending _ _⟩
  · -- The build of `r` is not lost, though `r` itself may be replaced.
    obtain ⟨s, hs, hsb⟩ :=
      List.mem_map.1 (Table.mem_build_absorbed.2 (List.mem_map_of_mem hr))
    have hsv : s.version = r.version := congrArg Build.version hsb
    refine ⟨s, (hrows s).1 hs, hsb, ?_⟩
    rw [← hsb]
    exact filter_listed_entries hbuilds hs (hasVersion_iff.2 (hsv ▸ hrv))
  · obtain ⟨s, hs, rfl⟩ := List.mem_map.1
      ((listed_entries fun r hr => (List.mem_filter.1 hr).2).mem_iff.1 hx)
    obtain ⟨hs, hsv⟩ := List.mem_filter.1 hs
    exact ⟨s, (hrows s).1 hs, hasVersion_iff.1 hsv, rfl⟩

/-- Two stores are merged into an inventory, the first one with two spellings of one build. -/
theorem plugins_after_merges_spellings :
    let row (target version digest : String) : StoredRow :=
      { sampleRow "apps" target version with digest := some digest }
    let l : Table := ⟨.standard, [row "K8S" "v1.0.0" "1", row "tmc" "v1.0.0" "2"]⟩
    let offers : List (Path × Table) :=
      [("/i", ⟨.standard, [row "k8s" "v1.0.0" "3", row "kubernetes" "v1.0.0" "4"]⟩),
        ("/j", ⟨.standard, [row "K8s" "v1.1.0" "5", row "mission-control" "latest" "6"]⟩)]
    let i : Inventory := ⟨"/", "r.io"⟩
    let w : World Unit := ⟨⟨[], [(["plugin_inventory.db"], .file 0 (.store (.table l))),
      (["i"], .file 1 (.store (.table ⟨.standard,
        [row "k8s" "v1.0.0" "3", row "kubernetes" "v1.0.0" "4"]⟩))),
      (["j"], .file 2 (.store (.table ⟨.standard,
        [row "K8s" "v1.1.0" "5", row "mission-control" "latest" "6"]⟩)))]⟩, [], ()⟩
    ∃ es w', (do
        mergeEach i.storePath (offers.map Prod.fst)
        i.plugins {} : Run Unit (List Entry)).exec w = (.ok es, w') ∧
      (∀ r ∈ l.read ++ (offers.map fun x => x.2.read).flatten,
        Version.isWritten r.version = .ok true →
          ∃ s, Prevails l.read (offers.map fun x => x.2.read) s ∧ s.build = r.build ∧
            (listed es).filter (·.1 == r.build) = [listedAs i.imagePrefix s]) ∧
      (∀ x ∈ listed es, ∃ s, Prevails l.read (offers.map fun x => x.2.read) s ∧
        Version.isWritten s.version = .ok true ∧ x = listedAs i.imagePrefix s) ∧
      es.Pairwise fun d e => (compare d.name e.name).then (compare d.target e.target) = .lt := by
  intro row l offers i w
  have hl : storeAt w.files i.storePath = .ok (.table l) := by rfl
  have hs : l.Standard := ⟨rfl, by decide, by decide⟩
  have hb : (l.read.map Row.build).Nodup := by decide +kernel
  have hfollow : w.files.follow i.storePath =
      .ok (.taken ["plugin_inventory.db"] (.file 0 (.store (.table l)))) := by rfl
  have hlock (stores : List Path) : w.files.Lockable i.storePath stores :=
    .of_free ["plugin_inventory.db.lock"] (by rfl)
  have ho : Offered i.storePath w offers := by
    refine offered_of_apart (List.forall_mem_cons.2 ⟨?_, List.forall_mem_cons.2 ⟨?_, nofun⟩⟩)
    · exact ⟨by rfl, ⟨rfl, by decide, by decide⟩,
        FileTree.not_sameFile_of_serial_ne hfollow (by rfl) (by decide),
        (hlock ["/i"]).apart _ (by simp)⟩
    · exact ⟨by rfl, ⟨rfl, by decide, by decide⟩,
        FileTree.not_sameFile_of_serial_ne hfollow (by rfl) (by decide),
        (hlock ["/j"]).apart _ (by simp)⟩
  have hv : ∀ r ∈ l.read ++ (offers.map fun x => x.2.read).flatten, ∀ t, r.version = some t →
      Version.IsShort t := by
    have hshort : ∀ r ∈ l.read ++ (offers.map fun x => x.2.read).flatten,
        ∀ t ∈ r.version, Version.IsShort t := by decide +kernel
    exact hshort
  exact plugins_after_merges hl hs hb (hlock _) ho hv

end PluginCatalog
