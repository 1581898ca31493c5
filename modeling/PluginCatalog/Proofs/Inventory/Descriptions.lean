import PluginCatalog.Proofs.Inventory.Recommendations

/-!
# How entries describe their plugins

The texts of an entry are those of its last row, and where no row recommends a version, the entry
recommends the last of its ascending versions. These ascend by precedence only, so that the order of
the rows decides which of several spellings of one version is the last.

* `Newest rows t`: of the versions that no other one exceeds, `t` is the one whose first row comes
  last.
* `recommended_newest`: an entry recommends what its rows recommend last, or else the newest
  version.
* `plugins_described` is what the entries of a query say, told from the rows that it wants.
-/

namespace PluginCatalog

variable {σ : Type} {imagePrefix : String} {rows : List ReadRow}

/-! ## The last of the ascending versions -/

/-- The last of the ascending versions is not exceeded by those before it, and exceeds those after
it. -/
theorem getLast?_ascending {texts : List String}
    (h : ∀ t ∈ texts, (Version.ofText? t).isSome) {t : String}
    (hlast : (ascending texts).getLast? = some t) :
    ∃ before after, texts = before ++ t :: after ∧
      (∀ s ∈ before, ∀ v w, Version.parse s = .ok v → Version.parse t = .ok w → v.precedes w) ∧
      ∀ s ∈ after, ∀ v w, Version.parse s = .ok v → Version.parse t = .ok w → ¬w.precedes v := by
  unfold ascending sortByVersion at hlast
  rw [List.getLast?_map, Option.map_eq_some_iff] at hlast
  obtain ⟨⟨t, u⟩, hlast, rfl⟩ := hlast
  obtain ⟨before, after, hpairs, hbefore, hafter⟩ :
      IsLastGreatest (fun a b : String × Version => a.2.precedes b.2) _ (t, u) := by
    refine isLastGreatest_stableSort ?_ ?_ hlast
    · exact fun _ _ _ => Version.precedes_trans
    · exact fun _ _ => Version.precedes_total _ _
  have hparse : ∀ x ∈ before ++ (t, u) :: after, Version.parse x.1 = .ok x.2 := by
    rw [← hpairs]
    exact fun x hx => parse_of_mem_read hx
  have ht : Version.parse t = .ok u := hparse (t, u) (by simp)
  refine ⟨before.map Prod.fst, after.map Prod.fst, ?_, fun s hs v w hv hw => ?_,
    fun s hs v w hv hw => ?_⟩
  · rw [← map_fst_read h, hpairs, List.map_append, List.map_cons]
  · obtain ⟨x, hx, rfl⟩ := List.mem_map.1 hs
    obtain rfl := Except.ok.inj ((hparse x (by simp [hx])).symm.trans hv)
    obtain rfl := Except.ok.inj (ht.symm.trans hw)
    exact hbefore x hx
  · obtain ⟨x, hx, rfl⟩ := List.mem_map.1 hs
    obtain rfl := Except.ok.inj ((hparse x (by simp [hx])).symm.trans hv)
    obtain rfl := Except.ok.inj (ht.symm.trans hw)
    exact hafter x hx

/-- What comes up first in the later of two lists comes last. -/
theorem distinct_append {α : Type} [BEq α] [LawfulBEq α] (l m : List α) :
    distinct (l ++ m) = distinct l ++ (distinct m).filter fun a => !l.contains a := by
  induction l with
  | nil => simp [distinct]
  | cons b l ih =>
    rw [List.cons_append, distinct, ih, distinct, List.filter_append, List.filter_filter,
      List.cons_append]
    refine congrArg _ (congrArg _ (List.filter_congr fun a _ => ?_))
    rw [List.contains_cons, Bool.not_or, bne]

/-- What comes up before the first place of `t` is before `t` in the list without repetitions. -/
theorem distinct_split {α : Type} [BEq α] [LawfulBEq α] {l m before after : List α} {t : α}
    (hl : t ∉ l) (h : distinct (l ++ t :: m) = before ++ t :: after) {a : α} :
    a ∈ before ↔ a ∈ l := by
  have hsplit : distinct (l ++ t :: m) = distinct l ++
      t :: ((distinct m).filter (· != t)).filter fun a => !l.contains a := by
    rw [distinct_append, distinct, List.filter_cons_of_pos (by simpa using hl)]
  have hnot : t ∉ before ++ after := by
    have hnodup := nodup_distinct (l ++ t :: m)
    rw [h, List.nodup_middle] at hnodup
    exact (List.nodup_cons.1 hnodup).1
  rw [List.mem_append, not_or] at hnot
  obtain ⟨rfl, -⟩ := (List.append_cons_inj_of_notMem hnot.1 hnot.2).1 (h.symm.trans hsplit)
  exact mem_distinct

/-! ## The newest version -/

/-- No version of a row exceeds `t`, and of those that `t` does not exceed either, `t` is the one
whose first row comes last. -/
structure Newest (rows : List ReadRow) (t : String) : Prop where
  highest : ∀ s ∈ rows, ∀ u v w, s.version = some u → Version.parse u = .ok v →
    Version.parse t = .ok w → v.precedes w
  latest : ∃ before r after, rows = before ++ r :: after ∧ r.version = some t ∧
    (∀ s ∈ before, s.version ≠ some t) ∧
    ∀ s ∈ after, ∀ u v w, s.version = some u → Version.parse u = .ok v →
      Version.parse t = .ok w → w.precedes v → u = t ∨ ∃ s' ∈ before, s'.version = some u

/-- Rows have a first one of each of their versions. -/
theorem exists_first {t : String} (h : t ∈ rows.filterMap (·.version)) :
    ∃ before r after, rows = before ++ r :: after ∧ r.version = some t ∧
      ∀ s ∈ before, s.version ≠ some t := by
  obtain ⟨s, hs, hst⟩ := List.mem_filterMap.1 h
  have hsome : (rows.find? (·.version == some t)).isSome :=
    List.find?_isSome.2 ⟨s, hs, beq_iff_eq.2 hst⟩
  obtain ⟨r, hr⟩ := Option.isSome_iff_exists.1 hsome
  obtain ⟨hrt, before, after, rfl, hbefore⟩ := List.find?_eq_some_iff_append.1 hr
  exact ⟨before, r, after, rfl, beq_iff_eq.1 hrt, by simpa using hbefore⟩

/-- **The last of the ascending versions of rows** is the newest one. -/
theorem newest_of_getLast? (hv : ∀ r ∈ rows, hasVersion r) {t : String}
    (h : (ascending (distinct (rows.filterMap (·.version)))).getLast? = some t) :
    Newest rows t := by
  have hwritten : ∀ s ∈ distinct (rows.filterMap (·.version)), (Version.ofText? s).isSome := by
    intro s hs
    obtain ⟨r, hr, hrs⟩ := List.mem_filterMap.1 (mem_distinct.1 hs)
    obtain ⟨u, hu, hsome⟩ := exists_version (hv r hr)
    rwa [Option.some.inj (hrs.symm.trans hu)]
  obtain ⟨lower, higher, hsplit, hlower, hhigher⟩ := getLast?_ascending hwritten h
  have hmem : ∀ {s : ReadRow} {u : String}, s ∈ rows → s.version = some u →
      u ∈ lower ++ t :: higher := by
    intro s u hs hu
    rw [← hsplit, mem_distinct, List.mem_filterMap]
    exact ⟨s, hs, hu⟩
  have ht : t ∈ rows.filterMap (·.version) := by
    rw [← mem_distinct, hsplit]
    simp
  refine ⟨fun s hs u v w hu hv hw => ?_, ?_⟩
  · rcases List.mem_append.1 (hmem hs hu) with hu | hu
    · exact hlower u hu v w hv hw
    rcases List.mem_cons.1 hu with rfl | hu
    · obtain rfl := Except.ok.inj (hv.symm.trans hw)
      simpa using v.precedes_total v
    · simpa [hhigher u hu v w hv hw] using v.precedes_total w
  · obtain ⟨before, r, after, rfl, hr, hbefore⟩ := exists_first ht
    refine ⟨before, r, after, rfl, hr, hbefore, fun s hs u v w hu hv hw hwv => ?_⟩
    rw [List.filterMap_append, List.filterMap_cons_some hr] at hsplit
    have hfirst : t ∉ before.filterMap (·.version) := by
      intro hmem
      obtain ⟨s, hs, hst⟩ := List.mem_filterMap.1 hmem
      exact hbefore s hs hst
    rcases List.mem_append.1 (hmem (by simp [hs]) hu) with hu | hu
    · exact .inr (List.mem_filterMap.1 ((distinct_split hfirst hsplit).1 hu))
    rcases List.mem_cons.1 hu with rfl | hu
    · exact .inl rfl
    · exact absurd hwv (hhigher u hu v w hv hw)

theorem versions_ofRows (imagePrefix : String) (key : EntryKey) (rows : List ReadRow) :
    (Entry.ofRows imagePrefix key rows).versions =
      ascending (distinct (rows.filterMap (·.version))) := by
  change ascending ((artifactsByVersion imagePrefix rows).map Prod.fst) = _
  unfold artifactsByVersion
  rw [List.map_map]
  exact congrArg _ (List.map_id _)

/-- The versions of an entry are those of its rows. -/
theorem mem_versions_ofRows (imagePrefix : String) (key : EntryKey) (hne : rows ≠ [])
    (hv : ∀ r ∈ rows, hasVersion r) {t : String} :
    t ∈ (Entry.ofRows imagePrefix key rows).versions ↔ ∃ r ∈ rows, r.version = some t := by
  have hwell : (Entry.ofRows imagePrefix key rows).WellFormed := wellFormed_ofRows hne hv
  exact hwell.versions.mem_iff.trans mem_versions_artifacts

/-- **What an entry recommends**: what its rows recommend last, or else the newest version. -/
theorem recommended_newest (imagePrefix : String) (key : EntryKey) (hne : rows ≠ [])
    (hv : ∀ r ∈ rows, hasVersion r) :
    LastRecommends rows (Entry.ofRows imagePrefix key rows).recommended ∨
      (∀ r ∈ rows, ∀ u, r.recommended = some u → u = "") ∧
        Newest rows (Entry.ofRows imagePrefix key rows).recommended := by
  rw [recommended_ofRows]
  cases hrec : recommendation? rows with
  | some u => exact .inl (recommendation?_eq_some.1 hrec)
  | none =>
    refine .inr ⟨recommendation?_eq_none.1 hrec, newest_of_getLast? hv ?_⟩
    have hwell : (Entry.ofRows imagePrefix key rows).WellFormed := wellFormed_ofRows hne hv
    rw [← versions_ofRows imagePrefix key, List.getLast?_eq_getLast_of_ne_nil hwell.versions_ne_nil]
    rfl

theorem Newest.mem {t : String} (h : Newest rows t) : ∃ r ∈ rows, r.version = some t := by
  obtain ⟨before, r, after, rfl, hr, -⟩ := h.latest
  exact ⟨r, by simp, hr⟩

/-! ## Entries of a query -/

/-- **What the entries of a query say**, told from the rows of their plugin and target that it
wants, in the order of their keys: the texts of the last row, and the version that is recommended
last or else the newest one. -/
theorem plugins_described {i : Inventory} {f : Filter} {w w' : World σ} {l : Table}
    {es : List Entry} (hl : storeAt w.files i.storePath = .ok (.table l)) (hs : l.Standard)
    (hf : f.version ≠ some Filter.latest) (h : (i.plugins f).exec w = (.ok es, w')) :
    ∀ e ∈ es, ∃ rows : List ReadRow,
      (∀ r, r ∈ rows ↔ r ∈ l.read ∧ f.Wants r ∧ Version.isWritten r.version = .ok true ∧
        r.name = e.name ∧ Target.normalize? r.target = e.target) ∧
      (rows.Pairwise fun a b => a.key.compare b.key = .lt) ∧
      (∃ last, rows.getLast? = some last ∧ e.description = last.description ∧
        e.publisher = last.publisher ∧ e.vendor = last.vendor) ∧
      (∀ t, t ∈ e.versions ↔ ∃ r ∈ rows, r.version = some t) ∧
      (LastRecommends rows e.recommended ∨ (∀ r ∈ rows, r.recommended = some "") ∧
        e.recommended ∈ e.versions ∧ Newest rows e.recommended) := by
  intro e he
  obtain rfl := query_ok hf (query_of_exec_plugins (rowsAt_of_storeAt hl) h)
  obtain ⟨r, hr, rfl⟩ := mem_entries.1 he
  have hne : (f.taken l.read).filter (entryKey · == entryKey r) ≠ [] :=
    List.ne_nil_of_mem (List.mem_filter.2 ⟨hr, beq_self_eq_true _⟩)
  have hv : ∀ s ∈ (f.taken l.read).filter (entryKey · == entryKey r), hasVersion s :=
    fun s hs => Filter.hasVersion_of_mem_taken (List.mem_filter.1 hs).1
  have hread : ∀ s ∈ (f.taken l.read).filter (entryKey · == entryKey r), s ∈ l.read :=
    fun s hs => (Filter.mem_taken.1 (List.mem_filter.1 hs).1).1
  have hversions : ∀ t, t ∈ (entryOf i.imagePrefix (f.taken l.read) (entryKey r)).versions ↔
      ∃ s ∈ (f.taken l.read).filter (entryKey · == entryKey r), s.version = some t :=
    fun t => mem_versions_ofRows i.imagePrefix (entryKey r) hne hv
  refine ⟨(f.taken l.read).filter (entryKey · == entryKey r), fun s => ?_, ?_, ?_, hversions, ?_⟩
  · rw [List.mem_filter, Filter.mem_taken, Filter.basis_of_ne_latest hf, beq_iff_eq, entryKey,
      EntryKey.mk.injEq, and_assoc, and_assoc]
    rfl
  · exact ((hs.read_ascending.filter _).filter _).filter _
  · refine ⟨_, List.getLast?_eq_getLast_of_ne_nil hne, ?_⟩
    simp only [entryOf, Entry.ofRows, List.getLast?_eq_getLast_of_ne_nil hne, Option.bind_some,
      and_self]
  · rcases recommended_newest i.imagePrefix (entryKey r) hne hv with hlast | ⟨hnone, hnewest⟩
    · exact .inl hlast
    · refine .inr ⟨fun s hs' => ?_, (hversions _).2 hnewest.mem, hnewest⟩
      have hsome := (hs.complete_of_mem_read (hread s hs')).recommended
      obtain ⟨u, hu⟩ := Option.isSome_iff_exists.1 hsome
      rw [hu, hnone s hs' u hu]

/-- A plugin in two spellings of its target, with two spellings of its highest version and no
recommendation, and another one whose texts change and whose last recommendation is not of its last
row. -/
theorem plugins_described_spellings :
    let row (name target version recommended description : String) : StoredRow :=
      { sampleRow name target version with
        recommended := some recommended, description := some description }
    let l : Table := ⟨.standard, [row "apps" "kubernetes" "v1.2" "" "new",
      row "apps" "k8s" "v1.2.0" "" "old", row "apps" "k8s" "v1.10.0-rc.1" "" "other",
      row "login" "tmc" "v2.0.0" "" "last", row "login" "tmc" "v1.0.0" "v1.0.0" "first"]⟩
    let i : Inventory := ⟨"/", "r.io"⟩
    let f : Filter := { os := some "linux" }
    let w : World Unit := ⟨⟨[], [(["plugin_inventory.db"], .file 0 (.store (.table l)))]⟩, [], ()⟩
    ∃ es w', (i.plugins f).exec w = (.ok es, w') ∧ ∀ e ∈ es, ∃ rows : List ReadRow,
      (∀ r, r ∈ rows ↔ r ∈ l.read ∧ f.Wants r ∧ Version.isWritten r.version = .ok true ∧
        r.name = e.name ∧ Target.normalize? r.target = e.target) ∧
      (rows.Pairwise fun a b => a.key.compare b.key = .lt) ∧
      (∃ last, rows.getLast? = some last ∧ e.description = last.description ∧
        e.publisher = last.publisher ∧ e.vendor = last.vendor) ∧
      (∀ t, t ∈ e.versions ↔ ∃ r ∈ rows, r.version = some t) ∧
      (LastRecommends rows e.recommended ∨ (∀ r ∈ rows, r.recommended = some "") ∧
        e.recommended ∈ e.versions ∧ Newest rows e.recommended) := by
  intro row l i f w
  have hl : storeAt w.files i.storePath = .ok (.table l) := by rfl
  have hs : l.Standard := ⟨rfl, by decide, by decide⟩
  have hf : f.version ≠ some Filter.latest := by decide
  have hfault : ∀ r ∈ l.read.filter f.admits, faultOf i.imagePrefix r = none := by decide +kernel
  have hn : ∀ r ∈ l.read.filter f.admits, r.name.isSome := by decide +kernel
  obtain ⟨w', hexec⟩ := exec_plugins_ok (rowsAt_of_storeAt hl) hf hfault hn
  exact ⟨_, w', hexec, plugins_described hl hs hf hexec⟩

end PluginCatalog
