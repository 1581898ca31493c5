import PluginCatalog.Proofs.Inventory.Latest

/-!
# What entries recommend

An entry recommends what the last of its rows that names a version to install names, or else the
last of its own versions.

* `LastRecommends rows v` says that without the function that looks for it.
* `plugins_latest_recommended`: the entries of a query for the recommended versions are aggregated
  from the rows at those versions alone; they recommend them too exactly if the last of these rows
  that recommends a version recommends the one that it is of.
* `recommendations_visible`: what is recommended without hidden builds is a hidden version exactly
  if a visible row says so.
-/

namespace PluginCatalog

variable {σ : Type} {imagePrefix : String} {rows : List ReadRow} {v : String}

/-! ## The last recommendation -/

/-- The last of the rows that recommend a version recommends `v`. -/
def LastRecommends (rows : List ReadRow) (v : String) : Prop :=
  v ≠ "" ∧ ∃ before r after, rows = before ++ r :: after ∧ r.recommended = some v ∧
    ∀ s ∈ after, ∀ u, s.recommended = some u → u = ""

theorem recommendation?_cons (r : ReadRow) (rows : List ReadRow) : recommendation? (r :: rows) =
    (recommendation? rows).or (r.recommended.filter (!·.isEmpty)) := by
  unfold recommendation?
  cases hr : r.recommended with
  | none => simp [hr]
  | some u =>
    rw [List.filterMap_cons_some hr, List.reverse_cons, List.find?_append]
    cases hu : u.isEmpty <;> simp [Option.filter, hu]

theorem recommendation?_eq_none :
    recommendation? rows = none ↔ ∀ r ∈ rows, ∀ u, r.recommended = some u → u = "" := by
  unfold recommendation?
  simp only [List.find?_eq_none, List.mem_reverse, List.mem_filterMap, Bool.not_eq_true',
    Bool.not_eq_false, String.isEmpty_iff]
  constructor
  · intro h r hr u hu
    exact h u ⟨r, hr, hu⟩
  · rintro h u ⟨r, hr, hu⟩
    exact h r hr u hu

/-- The last recommendation is one of the later rows, or that of the first row if they have none. -/
theorem lastRecommends_cons {r : ReadRow} : LastRecommends (r :: rows) v ↔ LastRecommends rows v ∨
    (v ≠ "" ∧ r.recommended = some v) ∧ ∀ s ∈ rows, ∀ u, s.recommended = some u → u = "" := by
  constructor
  · rintro ⟨hv, before, s, after, hrows, hs, hafter⟩
    cases before with
    | nil =>
      obtain ⟨rfl, rfl⟩ := List.cons.inj hrows
      exact .inr ⟨⟨hv, hs⟩, hafter⟩
    | cons b before =>
      obtain ⟨rfl, rfl⟩ := List.cons.inj hrows
      exact .inl ⟨hv, before, s, after, rfl, hs, hafter⟩
  · rintro (⟨hv, before, s, after, rfl, hs, hafter⟩ | ⟨⟨hv, hr⟩, hrows⟩)
    · exact ⟨hv, r :: before, s, after, rfl, hs, hafter⟩
    · exact ⟨hv, [], r, rows, rfl, hr, hrows⟩

/-- **The recommendation that is found** is the last one. -/
theorem recommendation?_eq_some : recommendation? rows = some v ↔ LastRecommends rows v := by
  induction rows with
  | nil => simp [recommendation?, LastRecommends]
  | cons r rows ih =>
    rw [recommendation?_cons, lastRecommends_cons, Option.or_eq_some_iff, ih,
      recommendation?_eq_none, Option.filter_eq_some_iff, Bool.not_eq_true', ← Bool.not_eq_true,
      String.isEmpty_iff]
    refine or_congr_right ?_
    constructor
    · rintro ⟨hnone, hr, hv⟩
      exact ⟨⟨hv, hr⟩, hnone⟩
    · rintro ⟨⟨hv, hr⟩, hnone⟩
      exact ⟨hnone, hr, hv⟩

/-- Rows without a recommendation leave the choice. -/
theorem getD_recommendation? :
    (recommendation? rows).getD v = v ↔ ∀ u, LastRecommends rows u → u = v := by
  simp only [← recommendation?_eq_some]
  cases recommendation? rows with
  | none => simp
  | some u => simp

/-- What an entry recommends, if its rows recommend nothing: the last of its versions. -/
theorem recommended_ofRows (imagePrefix : String) (key : EntryKey) (rows : List ReadRow) :
    (Entry.ofRows imagePrefix key rows).recommended = (recommendation? rows).getD
      ((Entry.ofRows imagePrefix key rows).versions.getLast?.getD "") := rfl

/-- An entry recommends what a row of it recommends last, or a version that a row of it is of. -/
theorem recommended_cases {key : EntryKey} (hne : rows ≠ []) (hv : ∀ r ∈ rows, hasVersion r) :
    LastRecommends rows (Entry.ofRows imagePrefix key rows).recommended ∨
      ∃ r ∈ rows, r.version = some (Entry.ofRows imagePrefix key rows).recommended := by
  rw [recommended_ofRows]
  cases hrec : recommendation? rows with
  | some u => exact .inl (recommendation?_eq_some.1 hrec)
  | none =>
    have hwell : (Entry.ofRows imagePrefix key rows).WellFormed := wellFormed_ofRows hne hv
    refine .inr (mem_versions_artifacts.1 (hwell.versions.mem_iff.1 ?_))
    rw [List.getLast?_eq_getLast_of_ne_nil hwell.versions_ne_nil]
    exact List.getLast_mem hwell.versions_ne_nil

/-! ## The recommended versions -/

namespace Filter

/-- Whether a query for the recommended versions takes a row for a plugin and target that
recommends a version. -/
def takesAt (f : Filter) (key : EntryKey) (version : String) (r : ReadRow) : Bool :=
  f.general.admits r && f.admitsPlatform r && entryKey r == key && r.version == some version

/-- The rows of a key at its recommended version are, of all rows, those that the query takes for
the key at that version. -/
theorem recommended_filter_takesAt {f : Filter} (hf : f.version = some latest) {key : EntryKey}
    {version : String} (hrec : (entryOf imagePrefix (f.taken rows) key).recommended = version)
    (hwritten : (Version.ofText? version).isSome) :
    (f.recommended imagePrefix (f.taken rows)).filter (entryKey · == key) =
      rows.filter (f.takesAt key version) := by
  have htaken : (f.recommended imagePrefix (f.taken rows)).filter (entryKey · == key) =
      (f.taken rows).filter (f.takesAt key version) := by
    rw [recommended, List.filter_filter]
    refine List.filter_congr fun r hr => ?_
    have hadmits := (List.mem_filter.1 (List.mem_filter.1 hr).1).2
    rw [basis_of_latest hf] at hadmits
    rw [isRecommended, recommendedFor_entries hr, takesAt, hadmits, Bool.true_and]
    by_cases hkey : entryKey r = key
    · rw [hkey, hrec, beq_self_eq_true, Bool.true_and, Bool.and_true, Bool.and_comm]
    · have hne : (entryKey r == key) = false := beq_eq_false_iff_ne.2 hkey
      simp [hne]
  rw [htaken, taken, List.filter_filter, List.filter_filter]
  refine List.filter_congr fun r _ => ?_
  cases htakes : f.takesAt key version r with
  | false => rfl
  | true =>
    -- Its version is the recommended one, which is a written version.
    obtain ⟨h, hversion⟩ := Bool.and_eq_true_iff.1 htakes
    have hadmits := (Bool.and_eq_true_iff.1 (Bool.and_eq_true_iff.1 h).1).1
    have hhas : hasVersion r = true := by
      rw [hasVersion, beq_iff_eq.1 hversion]
      exact hwritten
    rw [basis_of_latest hf, hadmits, hhas]
    rfl

/-- The rows of a key at the recommended version are of one version. -/
theorem mem_recommended_key {f : Filter} {key : EntryKey} {r : ReadRow}
    (h : r ∈ (f.recommended imagePrefix rows).filter (entryKey · == key)) :
    r ∈ rows ∧ r.version = some (entryOf imagePrefix rows key).recommended := by
  obtain ⟨hr, hkey⟩ := List.mem_filter.1 h
  obtain ⟨hr, hversion, -⟩ := mem_recommended.1 hr
  rw [beq_iff_eq.1 hkey] at hversion
  exact ⟨hr, hversion⟩

end Filter

/-- **The entry at the recommended version** of a key has that version, and recommends it exactly if
the last recommendation of its rows is that version. -/
theorem entryOf_recommended {f : Filter} (hf : f.version = some Filter.latest) {key : EntryKey}
    (hne : (f.recommended imagePrefix (f.taken rows)).filter (entryKey · == key) ≠ [])
    (hrec : (entryOf imagePrefix (f.taken rows) key).recommended = v) :
    (entryOf imagePrefix (f.recommended imagePrefix (f.taken rows)) key).versions = [v] ∧
      ((entryOf imagePrefix (f.recommended imagePrefix (f.taken rows)) key).recommended = v ↔
        ∀ u, LastRecommends (rows.filter (f.takesAt key v)) u → u = v) := by
  have hv : ∀ s ∈ (f.recommended imagePrefix (f.taken rows)).filter (entryKey · == key),
      hasVersion s := fun s hs => Filter.hasVersion_of_mem_taken (Filter.mem_recommended_key hs).1
  have hversion : ∀ s ∈ (f.recommended imagePrefix (f.taken rows)).filter (entryKey · == key),
      s.version = some v := fun s hs => hrec ▸ (Filter.mem_recommended_key hs).2
  have hversions := (ofRows_of_version hne hv hversion imagePrefix key).1
  have hwritten : (Version.ofText? v).isSome := by
    obtain ⟨r, hr⟩ := List.exists_mem_of_ne_nil _ hne
    obtain ⟨t, ht, hsome⟩ := exists_version (hv r hr)
    rwa [Option.some.inj ((hversion r hr).symm.trans ht)]
  refine ⟨hversions, ?_⟩
  rw [entryOf, recommended_ofRows, hversions, Filter.recommended_filter_takesAt hf hrec hwritten]
  exact getD_recommendation?

/-- **What the entries of a query for the recommended versions recommend**: each of them has one
version, which the query without criteria of version and platform recommends for its plugin and
target; it recommends that version too exactly if the last of the rows at this version that
recommends any recommends this one. -/
theorem plugins_latest_recommended {i : Inventory} {f : Filter} {w w' : World σ} {es : List Entry}
    (hr : rowsAt w.files i.storePath = .ok rows) (hf : f.version = some Filter.latest)
    (h : (i.plugins f).exec w = (.ok es, w')) :
    ∃ general w'', (i.plugins f.general).exec w = (.ok general, w'') ∧
      ∀ e ∈ es, ∃ g ∈ general, g.key = e.key ∧ e.versions = [g.recommended] ∧
        (e.recommended = g.recommended ↔
          ∀ v, LastRecommends (rows.filter (f.takesAt e.key g.recommended)) v →
            v = g.recommended) := by
  obtain ⟨hanswer, rfl⟩ := query_latest_ok hf (query_of_exec_plugins hr h)
  obtain ⟨journal, hexec⟩ := exec_plugins i f.general hr
  rw [hanswer] at hexec
  refine ⟨_, _, hexec, fun e he => ?_⟩
  obtain ⟨r, hmem, rfl⟩ := mem_entries.1 he
  have hne : (f.recommended i.imagePrefix (f.taken rows)).filter (entryKey · == entryKey r) ≠ [] :=
    List.ne_nil_of_mem (List.mem_filter.2 ⟨hmem, beq_self_eq_true _⟩)
  have hgeneral : entryOf i.imagePrefix (f.taken rows) (entryKey r) ∈
      entries i.imagePrefix (f.taken rows) :=
    mem_entries.2 ⟨r, (Filter.mem_recommended.1 hmem).1, rfl⟩
  exact ⟨_, hgeneral, rfl, entryOf_recommended hf hne rfl⟩

/-- One plugin whose rows recommend each other's versions, and one that recommends its lower
version for one platform only. -/
theorem plugins_latest_recommended_platforms :
    let row (name version recommended os : String) : StoredRow :=
      { sampleRow name "kubernetes" version with recommended := some recommended, os := some os }
    let l : Table := ⟨.standard, [row "apps" "v1.0.0" "v2.0.0" "linux",
      row "apps" "v2.0.0" "v1.0.0" "linux", row "login" "v1.0.0" "" "linux",
      row "login" "v1.0.0" "v2.0.0" "darwin", row "login" "v2.0.0" "v1.0.0" "darwin"]⟩
    let i : Inventory := ⟨"/", "r.io"⟩
    let f : Filter := { version := some Filter.latest, os := some "linux" }
    let w : World Unit := ⟨⟨[], [(["plugin_inventory.db"], .file 0 (.store (.table l)))]⟩, [], ()⟩
    ∃ es w', (i.plugins f).exec w = (.ok es, w') ∧
      ∃ general w'', (i.plugins f.general).exec w = (.ok general, w'') ∧
        ∀ e ∈ es, ∃ g ∈ general, g.key = e.key ∧ e.versions = [g.recommended] ∧
          (e.recommended = g.recommended ↔
            ∀ v, LastRecommends (l.read.filter (f.takesAt e.key g.recommended)) v →
              v = g.recommended) := by
  intro row l i f w
  have hr : rowsAt w.files i.storePath = .ok l.read := by rfl
  have hfault : ∀ r ∈ l.read.filter f.general.admits, faultOf i.imagePrefix r = none := by
    decide +kernel
  have hn : ∀ r ∈ l.read.filter f.general.admits, r.name.isSome := by decide +kernel
  obtain ⟨es, hquery⟩ := query_latest_eq_ok rfl hfault hn
  obtain ⟨journal, hexec⟩ := exec_plugins i f hr
  rw [hquery] at hexec
  exact ⟨es, _, hexec, plugins_latest_recommended hr rfl hexec⟩

/-- Of a plugin whose two versions recommend each other, the lower one is recommended; the query for
the recommended versions answers with it and recommends the higher one. -/
theorem plugins_latest_disagree :
    let row (version recommended : String) : StoredRow :=
      { sampleRow "apps" "kubernetes" version with recommended := some recommended }
    let l : Table := ⟨.standard, [row "v1.0.0" "v2.0.0", row "v2.0.0" "v1.0.0"]⟩
    let i : Inventory := ⟨"/", "r.io"⟩
    let f : Filter := { version := some Filter.latest }
    let w : World Unit := ⟨⟨[], [(["plugin_inventory.db"], .file 0 (.store (.table l)))]⟩, [], ()⟩
    storeAt w.files i.storePath = .ok (.table l) ∧ l.Standard ∧
      ∃ es general w₁ w₂, (i.plugins f).exec w = (.ok es, w₁) ∧
        (i.plugins f.general).exec w = (.ok general, w₂) ∧
        (es.map fun e => (e.key, e.versions, e.recommended)) =
          [(⟨some "apps", "kubernetes"⟩, ["v1.0.0"], "v2.0.0")] ∧
        (general.map fun g => (g.key, g.recommended)) =
          [(⟨some "apps", "kubernetes"⟩, "v1.0.0")] := by
  intro row l i f w
  have hl : storeAt w.files i.storePath = .ok (.table l) := by rfl
  have hfault : ∀ r ∈ l.read.filter f.general.admits, faultOf i.imagePrefix r = none := by
    decide +kernel
  have hn : ∀ r ∈ l.read.filter f.general.admits, r.name.isSome := by decide +kernel
  obtain ⟨es, hquery⟩ := query_latest_eq_ok rfl hfault hn
  obtain ⟨journal, hexec⟩ := exec_plugins i f (rowsAt_of_storeAt hl)
  rw [hquery] at hexec
  have hanswers := query_latest_ok rfl hquery
  rw [hanswers.2] at hexec
  obtain ⟨journal', hexec'⟩ := exec_plugins i f.general (rowsAt_of_storeAt hl)
  rw [hanswers.1] at hexec'
  have hes : (entries i.imagePrefix (f.recommended i.imagePrefix (f.taken l.read))).map
      (fun e => (e.key, e.versions, e.recommended)) =
        [(⟨some "apps", "kubernetes"⟩, ["v1.0.0"], "v2.0.0")] := by decide +kernel
  have hgeneral : (entries i.imagePrefix (f.taken l.read)).map (fun g => (g.key, g.recommended)) =
      [(⟨some "apps", "kubernetes"⟩, "v1.0.0")] := by decide +kernel
  have hstandard : l.Standard := ⟨rfl, by decide +kernel, by decide +kernel⟩
  refine ⟨hl, hstandard, _, _, _, _, hexec, hexec', ?_⟩
  exact ⟨hes, hgeneral⟩

/-! ## Hidden versions -/

/-- There are rows of a version of a plugin and target, and all of them are hidden. -/
def HiddenVersion (rows : List ReadRow) (key : EntryKey) (v : String) : Prop :=
  (∃ r ∈ rows, entryKey r = key ∧ r.version = some v) ∧
    ∀ r ∈ rows, entryKey r = key → r.version = some v → r.hidden

/-- The filter for the visible rows of a target, or of all targets. -/
def Filter.visible (target : String) : Filter := { target := some target, includeHidden := false }

theorem Filter.visible_ne_latest (target : String) :
    (Filter.visible target).version ≠ some Filter.latest := nofun

/-- A version of a visible row is not hidden. -/
theorem not_hiddenVersion_of_mem_taken {target : String} {r : ReadRow}
    (hr : r ∈ (Filter.visible target).taken rows) (hversion : r.version = some v) :
    ¬HiddenVersion rows (entryKey r) v := by
  obtain ⟨hmem, hwants, -⟩ := Filter.mem_taken.1 hr
  rw [Filter.basis_of_ne_latest (Filter.visible_ne_latest target)] at hwants
  rintro ⟨-, hhidden⟩
  have hset := hhidden r hmem rfl hversion
  rw [hwants.hidden rfl] at hset
  cases hset

/-- What an inventory recommends is read off the visible entries of the target. -/
theorem exec_recommendations {i : Inventory} (context : String) {target : String} {w w' : World σ}
    {es : List Entry} (h : (i.plugins (.visible target)).exec w = (.ok es, w')) :
    ∃ w'', (i.recommendations context target).exec w =
      (.ok (es.map fun e => (e.name, e.recommended)), w'') := by
  unfold Inventory.recommendations
  rw [Filter.visible] at h
  rw [Run.exec_bind, h]
  exact ⟨_, rfl⟩

/-- **What is recommended** is a hidden version exactly if the last visible row that recommends a
version recommends a hidden one. -/
theorem recommendations_visible {i : Inventory} {context target : String} {w w' : World σ}
    {pairs : List (Option String × String)} (hr : rowsAt w.files i.storePath = .ok rows)
    (h : (i.recommendations context target).exec w = (.ok pairs, w')) :
    ∃ es w'', (i.plugins (.visible target)).exec w = (.ok es, w'') ∧
      pairs = es.map (fun e => (e.name, e.recommended)) ∧
      ∀ e ∈ es, (HiddenVersion rows e.key e.recommended ↔
        ∃ v, LastRecommends (((Filter.visible target).taken rows).filter (entryKey · == e.key)) v ∧
          HiddenVersion rows e.key v) := by
  unfold Inventory.recommendations at h
  obtain ⟨es, w₁, hplugins, h⟩ := Run.exec_bind_ok h
  obtain rfl := Except.ok.inj (Prod.mk.inj h).1
  refine ⟨es, w₁, hplugins, rfl, fun e he => ?_⟩
  obtain rfl := query_ok (Filter.visible_ne_latest target) (query_of_exec_plugins hr hplugins)
  obtain ⟨r, hmem, rfl⟩ := mem_entries.1 he
  have hne : ((Filter.visible target).taken rows).filter (entryKey · == entryKey r) ≠ [] :=
    List.ne_nil_of_mem (List.mem_filter.2 ⟨hmem, beq_self_eq_true _⟩)
  have hv : ∀ s ∈ ((Filter.visible target).taken rows).filter (entryKey · == entryKey r),
      hasVersion s := fun s hs => Filter.hasVersion_of_mem_taken (List.mem_filter.1 hs).1
  constructor
  · intro hhidden
    refine ⟨_, (recommended_cases hne hv).resolve_right ?_, hhidden⟩
    rintro ⟨s, hs, hversion⟩
    obtain ⟨hs, hkey⟩ := List.mem_filter.1 hs
    refine not_hiddenVersion_of_mem_taken hs hversion ?_
    rw [beq_iff_eq.1 hkey]
    exact hhidden
  · rintro ⟨v, hlast, hhidden⟩
    have hlast' : LastRecommends
      (((Filter.visible target).taken rows).filter (entryKey · == entryKey r)) v := hlast
    have hrec : (entryOf i.imagePrefix ((Filter.visible target).taken rows)
        (entryKey r)).recommended = v := by
      rw [entryOf, recommended_ofRows, recommendation?_eq_some.2 hlast']
      rfl
    rwa [hrec]

/-- Of one plugin the visible row recommends a hidden version, of another one a version that is
hidden for one platform, and of a third one the target is spelt in two ways. -/
theorem recommendations_visible_hidden :
    let row (name target version recommended os : String) (hidden : Int) : StoredRow :=
      { sampleRow name target version with
        recommended := some recommended, os := some os, hidden := .integer hidden }
    let l : Table := ⟨.standard, [row "apps" "k8s" "v1.0.0" "v2.0.0" "linux" 0,
      row "apps" "k8s" "v2.0.0" "" "linux" 1, row "cluster" "k8s" "v1.0.0" "v2.0.0" "linux" 0,
      row "cluster" "k8s" "v2.0.0" "" "darwin" 0, row "cluster" "k8s" "v2.0.0" "" "linux" 1,
      row "login" "k8s" "v1.0.0" "" "linux" 0, row "login" "kubernetes" "v2.0.0" "" "linux" 1]⟩
    let i : Inventory := ⟨"/", "r.io"⟩
    let w : World Unit := ⟨⟨[], [(["plugin_inventory.db"], .file 0 (.store (.table l)))]⟩, [], ()⟩
    ∃ pairs w', (i.recommendations "home" "kubernetes").exec w = (.ok pairs, w') ∧
      ∃ es w'', (i.plugins (.visible "kubernetes")).exec w = (.ok es, w'') ∧
        pairs = es.map (fun e => (e.name, e.recommended)) ∧
        ∀ e ∈ es, (HiddenVersion l.read e.key e.recommended ↔
          ∃ v, LastRecommends
              (((Filter.visible "kubernetes").taken l.read).filter (entryKey · == e.key)) v ∧
            HiddenVersion l.read e.key v) := by
  intro row l i w
  have hr : rowsAt w.files i.storePath = .ok l.read := by rfl
  obtain ⟨w₁, hplugins⟩ := exec_plugins_ok hr (f := .visible "kubernetes") nofun
    (by decide +kernel) (by decide +kernel)
  obtain ⟨w₂, hexec⟩ := exec_recommendations "home" hplugins
  exact ⟨_, w₂, hexec, recommendations_visible hr hexec⟩

/-- The visible row of a plugin recommends a version all of whose rows are hidden, and that is the
version to install. -/
theorem recommendations_name_hidden :
    let row (version recommended : String) (hidden : Int) : StoredRow :=
      { sampleRow "apps" "kubernetes" version with
        recommended := some recommended, hidden := .integer hidden }
    let l : Table := ⟨.standard, [row "v1.0.0" "v2.0.0" 0, row "v2.0.0" "v2.0.0" 1]⟩
    let i : Inventory := ⟨"/", "r.io"⟩
    let w : World Unit := ⟨⟨[], [(["plugin_inventory.db"], .file 0 (.store (.table l)))]⟩, [], ()⟩
    storeAt w.files i.storePath = .ok (.table l) ∧ l.Standard ∧
      ∃ w', (i.recommendations "home" "kubernetes").exec w =
          (.ok [(some "apps", "v2.0.0")], w') ∧
        HiddenVersion l.read ⟨some "apps", "kubernetes"⟩ "v2.0.0" := by
  intro row l i w
  have hl : storeAt w.files i.storePath = .ok (.table l) := by rfl
  have hstandard : l.Standard := ⟨rfl, by decide +kernel, by decide +kernel⟩
  obtain ⟨w₁, hplugins⟩ := exec_plugins_ok (rowsAt_of_storeAt hl) (f := .visible "kubernetes") nofun
    (by decide +kernel) (by decide +kernel)
  obtain ⟨w₂, hexec⟩ := exec_recommendations "home" hplugins
  have hpairs : (entries i.imagePrefix ((l.read.filter (Filter.visible "kubernetes").admits).filter
      hasVersion)).map (fun e => (e.name, e.recommended)) = [(some "apps", "v2.0.0")] := by
    decide +kernel
  rw [hpairs] at hexec
  exact ⟨hl, hstandard, w₂, hexec, by decide +kernel, by decide +kernel⟩

end PluginCatalog
