import Mathlib.Data.List.Basic
import PluginCatalog.Proofs.Inventory.Selections

/-!
# Queries for the recommended versions

Where a filter asks for the recommended version of each plugin, rows are aggregated twice: the first
time to learn what is recommended, from the rows of all versions and platforms.

* `Entry.atRecommended f e` are the artifacts of an entry at the version that it recommends, for the
  platform that a filter asks for.
* `atRecommended_entryOf`: of a plugin and target those artifacts are the ones of the rows that are
  aggregated the second time.
* `entries_recommended`: the entries of these rows are the ones of the first time that have such
  artifacts, at that one version.
* `plugins_latest` is the same for queries.
-/

namespace PluginCatalog

variable {σ : Type} {imagePrefix : String} {rows : List ReadRow}

/-! ## Artifacts of one version -/

/-- The artifacts under a version are those of its rows. -/
theorem lookup_artifactsByVersion (imagePrefix : String) (rows : List ReadRow) (v : String) :
    ((artifactsByVersion imagePrefix rows).lookup v).getD [] =
      (rows.filter (·.version == some v)).map (Artifact.ofRow imagePrefix) := by
  unfold artifactsByVersion
  by_cases hv : v ∈ distinct (rows.filterMap (·.version))
  · rw [List.lookup_graph _ hv, Option.getD_some]
  · have hrows : rows.filter (·.version == some v) = [] := by
      refine List.filter_eq_nil_iff.2 fun r hr he => hv (mem_distinct.2 ?_)
      exact List.mem_filterMap.2 ⟨r, hr, beq_iff_eq.1 he⟩
    have hlookup : ((distinct (rows.filterMap (·.version))).map fun version => (version,
        (rows.filter (·.version == some version)).map (Artifact.ofRow imagePrefix))).lookup v =
          none := by
      refine List.lookup_eq_none_iff.2 fun x hx => ?_
      obtain ⟨version, hversion, rfl⟩ := List.mem_map.1 hx
      have hne : v ≠ version := fun he => hv (he ▸ hversion)
      simpa using hne
    rw [hlookup, hrows]
    rfl

/-- Rows of one version have their artifacts under it. -/
theorem artifactsByVersion_eq_singleton (hne : rows ≠ []) {v : String}
    (hv : ∀ r ∈ rows, r.version = some v) :
    artifactsByVersion imagePrefix rows = [(v, rows.map (Artifact.ofRow imagePrefix))] := by
  have hdistinct : distinct (rows.filterMap (·.version)) = [v] := by
    apply List.perm_singleton.1
    apply (List.perm_ext_iff_of_nodup (nodup_distinct _) (List.nodup_singleton v)).2
    intro t
    rw [mem_distinct, List.mem_filterMap, List.mem_singleton]
    constructor
    · rintro ⟨r, hr, ht⟩
      exact Option.some.inj (ht.symm.trans (hv r hr))
    · rintro rfl
      obtain ⟨r, hr⟩ := List.exists_mem_of_ne_nil rows hne
      exact ⟨r, hr, hv r hr⟩
  have hrows : rows.filter (·.version == some v) = rows :=
    List.filter_eq_self.2 fun r hr => beq_iff_eq.2 (hv r hr)
  rw [artifactsByVersion, hdistinct, List.map_singleton, hrows]

theorem ascending_singleton {v : String} (hv : (Version.ofText? v).isSome) :
    ascending [v] = [v] := by
  apply List.perm_singleton.1
  apply ascending_perm
  intro t ht
  rwa [List.mem_singleton.1 ht]

/-- The entry of rows of one version. -/
theorem ofRows_of_version (hne : rows ≠ []) (hw : ∀ r ∈ rows, hasVersion r) {v : String}
    (hv : ∀ r ∈ rows, r.version = some v) (imagePrefix : String) (key : EntryKey) :
    (Entry.ofRows imagePrefix key rows).versions = [v] ∧
      (Entry.ofRows imagePrefix key rows).artifacts =
        [(v, rows.map (Artifact.ofRow imagePrefix))] := by
  have hartifacts : artifactsByVersion imagePrefix rows =
      [(v, rows.map (Artifact.ofRow imagePrefix))] := artifactsByVersion_eq_singleton hne hv
  obtain ⟨r, hr⟩ := List.exists_mem_of_ne_nil rows hne
  obtain ⟨t, ht, hwritten⟩ := exists_version (hw r hr)
  obtain rfl : v = t := Option.some.inj ((hv r hr).symm.trans ht)
  refine ⟨?_, hartifacts⟩
  change ascending ((artifactsByVersion imagePrefix rows).map Prod.fst) = [v]
  rw [hartifacts]
  exact ascending_singleton hwritten

/-! ## What an entry has at the version that it recommends -/

/-- Whether an artifact is for the platform that a filter asks for. -/
def Filter.suits (f : Filter) (a : Artifact) : Bool :=
  meets f.os a.os && meets f.architecture a.architecture

/-- The artifacts of an entry at the version that it recommends, for the platform that a filter asks
for. -/
def Entry.atRecommended (f : Filter) (e : Entry) : List Artifact :=
  ((e.artifacts.lookup e.recommended).getD []).filter f.suits

/-- **The rows of a key at the version recommended there** are those of the artifacts that the entry
has at that version. -/
theorem atRecommended_entryOf (f : Filter) (rows : List ReadRow) (key : EntryKey) :
    (entryOf imagePrefix rows key).atRecommended f =
      ((f.recommended imagePrefix rows).filter (entryKey · == key)).map
        (Artifact.ofRow imagePrefix) := by
  unfold Entry.atRecommended
  change (((artifactsByVersion imagePrefix (rows.filter (entryKey · == key))).lookup
    (entryOf imagePrefix rows key).recommended).getD []).filter f.suits = _
  rw [lookup_artifactsByVersion, List.filter_map, List.filter_filter, List.filter_filter,
    Filter.recommended, List.filter_filter]
  refine congrArg _ (List.filter_congr fun r hr => ?_)
  by_cases hk : entryKey r = key
  · have hrec : recommendedFor (entries imagePrefix rows) r =
        some (entryOf imagePrefix rows (entryKey r)).recommended := recommendedFor_entries hr
    rw [hk] at hrec
    simp only [isRecommended, hrec, hk, beq_self_eq_true, Bool.and_true, Bool.true_and]
    exact Bool.and_comm _ _
  · have hne : (entryKey r == key) = false := beq_eq_false_iff_ne.2 hk
    simp [hne]

/-- The keys of the rows at the recommended versions are those whose entries have artifacts
there. -/
theorem entryKeys_recommended (f : Filter) (imagePrefix : String) (rows : List ReadRow) :
    entryKeys (f.recommended imagePrefix rows) =
      (entryKeys rows).filter fun k => !((entryOf imagePrefix rows k).atRecommended f).isEmpty := by
  rw [Filter.recommended, entryKeys_filter]
  refine List.filter_congr fun k _ => ?_
  rw [atRecommended_entryOf, List.isEmpty_map, Bool.eq_iff_iff, List.any_eq_true,
    Bool.not_eq_true', List.isEmpty_eq_false_iff_exists_mem]
  refine exists_congr fun r => ?_
  rw [List.mem_filter, Filter.recommended, List.mem_filter, Bool.and_eq_true, and_assoc]

/-- **The entries of the rows at the recommended versions** are those of all rows that have
artifacts there, at that one version. -/
theorem entries_recommended (hv : ∀ r ∈ rows, hasVersion r) (f : Filter) (imagePrefix : String) :
    (entries imagePrefix (f.recommended imagePrefix rows)).map
        (fun e => (e.key, e.versions, e.artifacts)) =
      ((entries imagePrefix rows).filter fun e => !(e.atRecommended f).isEmpty).map fun e =>
        (e.key, [e.recommended], [(e.recommended, e.atRecommended f)]) := by
  rw [entries_eq_map_entryOf, entries_eq_map_entryOf, entryKeys_recommended, List.filter_map,
    List.map_map, List.map_map]
  refine List.map_congr_left fun k hk => ?_
  have hne : (f.recommended imagePrefix rows).filter (entryKey · == k) ≠ [] := by
    have hsome := (List.mem_filter.1 hk).2
    intro hnil
    rw [atRecommended_entryOf, hnil] at hsome
    cases hsome
  have hrow : ∀ r ∈ (f.recommended imagePrefix rows).filter (entryKey · == k),
      r ∈ rows ∧ r.version = some (entryOf imagePrefix rows k).recommended := by
    intro r hr
    obtain ⟨hr, hrk⟩ := List.mem_filter.1 hr
    obtain ⟨hr, hversion, -⟩ := Filter.mem_recommended.1 hr
    exact ⟨hr, beq_iff_eq.1 hrk ▸ hversion⟩
  obtain ⟨hversions, hartifacts⟩ := ofRows_of_version hne (fun r hr => hv r (hrow r hr).1)
    (fun r hr => (hrow r hr).2) imagePrefix k
  simp only [Function.comp_apply, atRecommended_entryOf]
  exact Prod.ext rfl (Prod.ext hversions hartifacts)

/-! ## Queries -/

/-- **What a query for the recommended versions answers**: the query without criteria of version and
platform answers too, and of its entries those that have artifacts for the platform at the version
that they recommend, with these artifacts and this version alone. -/
theorem plugins_latest {i : Inventory} {f : Filter} {w w' : World σ} {es : List Entry}
    (hf : f.version = some Filter.latest) (h : (i.plugins f).exec w = (.ok es, w')) :
    ∃ general w'', (i.plugins f.general).exec w = (.ok general, w'') ∧
      es.map (fun e => (e.key, e.versions, e.artifacts)) =
        (general.filter fun e => !(e.atRecommended f).isEmpty).map (fun e =>
          (e.key, [e.recommended], [(e.recommended, e.atRecommended f)])) ∧
      es.Pairwise fun d e => (compare d.name e.name).then (compare d.target e.target) = .lt := by
  obtain ⟨rows, hrows, hquery⟩ := exists_query_of_exec_plugins h
  obtain ⟨hanswer, rfl⟩ := query_latest_ok hf hquery
  obtain ⟨journal, hexec⟩ := exec_plugins i f.general hrows
  rw [hanswer] at hexec
  have hv : ∀ r ∈ f.taken rows, hasVersion r := fun _ hr => Filter.hasVersion_of_mem_taken hr
  exact ⟨_, _, hexec, entries_recommended hv f i.imagePrefix, entries_ascending _ _⟩

/-- A plugin in two spellings of its target that recommends the lower one of two versions, a hidden
one that recommends the highest, and a plugin that recommends what is no version. -/
theorem plugins_latest_pinned :
    let row (name target recommended version os : String) (hidden : Int) : StoredRow :=
      { sampleRow name target version with
        recommended := some recommended, os := some os, hidden := .integer hidden }
    let l : Table := ⟨.standard, [row "apps" "kubernetes" "" "v1.10.0" "linux" 0,
      row "apps" "k8s" "v1.9.0" "v1.9.0" "linux" 0, row "apps" "K8S" "" "v1.9.0" "darwin" 0,
      row "apps" "k8s" "v2.0.0" "v2.0.0" "linux" 1, row "login" "tmc" "newest" "v1.0.0" "linux" 0,
      row "login" "" "" "v1.0.0" "linux" 0, row "login" "" "" "v1.1.0" "darwin" 0]⟩
    let i : Inventory := ⟨"/", "r.io"⟩
    let f : Filter := { version := some Filter.latest, os := some "linux", includeHidden := false }
    let w : World Unit := ⟨⟨[], [(["plugin_inventory.db"], .file 0 (.store (.table l)))]⟩, [], ()⟩
    ∃ es w', (i.plugins f).exec w = (.ok es, w') ∧
      ∃ general w'', (i.plugins f.general).exec w = (.ok general, w'') ∧
        es.map (fun e => (e.key, e.versions, e.artifacts)) =
          (general.filter fun e => !(e.atRecommended f).isEmpty).map (fun e =>
            (e.key, [e.recommended], [(e.recommended, e.atRecommended f)])) ∧
        es.Pairwise fun d e =>
          (compare d.name e.name).then (compare d.target e.target) = .lt := by
  intro row l i f w
  have hl : storeAt w.files i.storePath = .ok (.table l) := by rfl
  have hfault : ∀ r ∈ l.read.filter f.general.admits, faultOf i.imagePrefix r = none := by
    decide +kernel
  have hn : ∀ r ∈ l.read.filter f.general.admits, r.name.isSome := by decide +kernel
  obtain ⟨es, hquery⟩ := query_latest_eq_ok rfl hfault hn
  obtain ⟨journal, hexec⟩ := exec_plugins i f (rowsAt_of_storeAt hl)
  rw [hquery] at hexec
  exact ⟨es, _, hexec, plugins_latest rfl hexec⟩

end PluginCatalog
