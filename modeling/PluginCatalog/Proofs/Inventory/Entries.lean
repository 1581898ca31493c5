import Mathlib.Data.List.Nodup
import Mathlib.Data.List.Perm.Basic
import PluginCatalog.Inventory.Entry
import PluginCatalog.Proofs.Version.Precedence

/-!
# What entries list

Entries gather rows twice: by plugin and target, and in each entry by version.

* `flatMap_filter_perm`: gathering by a key loses nothing and doubles nothing.
* `listed_entries`: the artifacts of the entries of rows, each with the build that it is of, are
  those of the rows.
* `entries_ascending`: the entries ascend strictly by name and target, so that no two are of one
  plugin and target.
* `Entry.WellFormed` is what every entry of rows with versions is: none of its versions lacks
  artifacts, and its versions are those of its artifacts, ascending.
-/

namespace PluginCatalog

/-! ## Gathering by a key -/

/-- **Gathering by a key** rearranges. -/
theorem flatMap_filter_perm {α κ : Type} [BEq κ] [LawfulBEq κ] {key : α → κ} {ks : List κ}
    (hk : ks.Nodup) {l : List α} (h : ∀ a ∈ l, key a ∈ ks) :
    (ks.flatMap fun k => l.filter (key · == k)).Perm l := by
  induction ks generalizing l with
  | nil =>
    obtain rfl : l = [] := List.eq_nil_iff_forall_not_mem.2 fun a ha => List.not_mem_nil (h a ha)
    exact .refl _
  | cons k ks ih =>
    obtain ⟨hnot, hks⟩ := List.nodup_cons.1 hk
    -- What is not of the key `k` is gathered by the other keys.
    have hrest : ∀ a ∈ l.filter (fun a => !(key a == k)), key a ∈ ks := by
      intro a ha
      obtain ⟨hal, hne⟩ := List.mem_filter.1 ha
      have hne : key a ≠ k := by simpa using hne
      exact (List.mem_cons.1 (h a hal)).resolve_left hne
    have hsame : ∀ k' ∈ ks, l.filter (key · == k') =
        (l.filter fun a => !(key a == k)).filter (key · == k') := by
      intro k' hk'
      rw [List.filter_filter]
      refine List.filter_congr fun a _ => ?_
      by_cases ha : key a = k'
      · have hne : k' ≠ k := fun he => hnot (he ▸ hk')
        simp [ha, hne]
      · simp [ha]
    rw [List.flatMap_cons, List.flatMap_congr hsame]
    exact ((ih hks hrest).append_left _).trans (List.filter_append_perm _ l)

/-- Of a key there is one element, if the keys are different. -/
theorem filter_eq_singleton {α κ : Type} [BEq κ] [LawfulBEq κ] {key : α → κ} {l : List α}
    (hk : (l.map key).Nodup) {a : α} (ha : a ∈ l) : l.filter (key · == key a) = [a] := by
  induction l with
  | nil => cases ha
  | cons b l ih =>
    obtain ⟨hb, hl⟩ := List.nodup_cons.1 hk
    rcases List.mem_cons.1 ha with rfl | ha
    · have hrest : l.filter (key · == key a) = [] :=
        List.filter_eq_nil_iff.2 fun c hc he => hb (List.mem_map.2 ⟨c, hc, by simpa using he⟩)
      simp [hrest]
    · have hne : key b ≠ key a := fun he => hb (he ▸ List.mem_map_of_mem ha)
      simp [hne, ih hl ha]

/-! ## Versions in ascending order -/

theorem Version.ofText?_eq_some {text : String} {v : Version} :
    ofText? text = some v ↔ parse text = .ok v := by
  unfold ofText?
  cases parse text <;> simp

/-- Written versions are all read. -/
theorem map_fst_read {texts : List String} (h : ∀ t ∈ texts, (Version.ofText? t).isSome) :
    (texts.filterMap fun t => (Version.ofText? t).map (t, ·)).map Prod.fst = texts := by
  induction texts with
  | nil => rfl
  | cons t texts ih =>
    obtain ⟨v, hv⟩ := Option.isSome_iff_exists.1 (h t List.mem_cons_self)
    have ih := ih fun s hs => h s (List.mem_cons_of_mem t hs)
    simp [hv, ih]

/-- Each text is read as its version. -/
theorem parse_of_mem_read {texts : List String} {x : String × Version}
    (hx : x ∈ texts.filterMap fun t => (Version.ofText? t).map (t, ·)) :
    Version.parse x.1 = .ok x.2 := by
  obtain ⟨t, -, hx⟩ := List.mem_filterMap.1 hx
  obtain ⟨v, hv, rfl⟩ := Option.map_eq_some_iff.1 hx
  exact Version.ofText?_eq_some.1 hv

/-- Written versions are rearranged. -/
theorem ascending_perm {texts : List String} (h : ∀ t ∈ texts, (Version.ofText? t).isSome) :
    (ascending texts).Perm texts := by
  have hp := (stableSort_perm (fun a b : String × Version => a.2.precedes b.2)
    (texts.filterMap fun t => (Version.ofText? t).map (t, ·))).map Prod.fst
  rwa [map_fst_read h] at hp

/-- They ascend in precedence. -/
theorem ascending_pairwise (texts : List String) : (ascending texts).Pairwise fun s t =>
    ∀ v w, Version.parse s = .ok v → Version.parse t = .ok w → v.precedes w := by
  have hsorted : (stableSort (fun a b : String × Version => a.2.precedes b.2)
      (texts.filterMap fun t => (Version.ofText? t).map (t, ·))).Pairwise
        fun a b => a.2.precedes b.2 := by
    refine stableSort_pairwise ?_ ?_ _
    · exact fun _ _ _ => Version.precedes_trans
    · exact fun _ _ => Version.precedes_total _ _
  refine List.pairwise_map.2 (hsorted.imp_of_mem fun hx hy hle v w hv hw => ?_)
  obtain rfl := Except.ok.inj ((parse_of_mem_read (mem_stableSort.1 hx)).symm.trans hv)
  obtain rfl := Except.ok.inj ((parse_of_mem_read (mem_stableSort.1 hy)).symm.trans hw)
  exact hle

/-! ## What is listed -/

/-- The artifacts of an entry, each with the build that it is of. -/
def Entry.listed (e : Entry) : List (Build × Artifact) :=
  e.artifacts.flatMap fun x =>
    x.2.map fun a => (⟨e.name, e.target, some x.1, a.os, a.architecture⟩, a)

/-- The artifacts of entries, each with the build that it is of. -/
def listed (es : List Entry) : List (Build × Artifact) := es.flatMap Entry.listed

/-- What a row is listed as. -/
def listedAs (imagePrefix : String) (r : ReadRow) : Build × Artifact :=
  (r.build, ⟨r.os, r.architecture, r.digest, r.uri.map (Address.resolve imagePrefix), r.uri⟩)

variable {imagePrefix : String} {key : EntryKey} {rows : List ReadRow}

theorem exists_version {r : ReadRow} (h : hasVersion r) :
    ∃ t, r.version = some t ∧ (Version.ofText? t).isSome := by
  unfold hasVersion at h
  cases hv : r.version with
  | none => simp [hv] at h
  | some t => exact ⟨t, rfl, by simpa [hv] using h⟩

/-- An entry lists its rows. -/
theorem listed_ofRows (hkey : ∀ r ∈ rows, entryKey r = key) (hv : ∀ r ∈ rows, hasVersion r) :
    (Entry.ofRows imagePrefix key rows).listed.Perm (rows.map (listedAs imagePrefix)) := by
  have hgroup : (Entry.ofRows imagePrefix key rows).listed =
      (((distinct (rows.filterMap (·.version))).map some).flatMap fun v =>
        rows.filter (·.version == v)).map (listedAs imagePrefix) := by
    change ((artifactsByVersion imagePrefix rows).flatMap fun x => x.2.map fun a =>
      ((⟨key.name, key.target, some x.1, a.os, a.architecture⟩ : Build), a)) = _
    unfold artifactsByVersion
    rw [List.flatMap_map, List.flatMap_map, List.map_flatMap]
    refine List.flatMap_congr fun v _ => ?_
    rw [List.map_map]
    refine List.map_congr_left fun r hr => ?_
    obtain ⟨hr, hrv⟩ := List.mem_filter.1 hr
    have hrv : r.version = some v := by simpa using hrv
    obtain rfl := hkey r hr
    simp [listedAs, Artifact.ofRow, Row.build, entryKey, hrv]
  rw [hgroup]
  refine (flatMap_filter_perm ?_ fun r hr => ?_).map _
  · exact (nodup_distinct _).map fun _ _ h => Option.some.inj h
  · obtain ⟨t, ht, -⟩ := exists_version (hv r hr)
    refine List.mem_map.2 ⟨t, mem_distinct.2 ?_, ht.symm⟩
    exact List.mem_filterMap.2 ⟨r, hr, ht⟩

theorem mem_entryKeys : key ∈ entryKeys rows ↔ key ∈ rows.map entryKey :=
  mem_stableSort.trans mem_distinct

theorem nodup_entryKeys (rows : List ReadRow) : (entryKeys rows).Nodup :=
  (stableSort_perm _ _).nodup_iff.2 (nodup_distinct _)

/-- **Entries list their rows**: nothing is lost, doubled or added. -/
theorem listed_entries (hv : ∀ r ∈ rows, hasVersion r) :
    (listed (entries imagePrefix rows)).Perm (rows.map (listedAs imagePrefix)) := by
  have hgroup : (listed (entries imagePrefix rows)).Perm
      (((entryKeys rows).flatMap fun k => rows.filter (entryKey · == k)).map
        (listedAs imagePrefix)) := by
    unfold listed entries
    rw [List.flatMap_map, List.map_flatMap]
    refine List.Perm.flatMap_left _ fun k _ => listed_ofRows (fun r hr => ?_) fun r hr => ?_
    · simpa using (List.mem_filter.1 hr).2
    · exact hv r (List.mem_filter.1 hr).1
  refine hgroup.trans ((flatMap_filter_perm (nodup_entryKeys rows) fun r hr => ?_).map _)
  exact mem_entryKeys.2 (List.mem_map_of_mem hr)

/-! ## The order of entries -/

namespace EntryKey

/-- Keys of entries are compared by name, then by target. -/
protected def compare (a b : EntryKey) : Ordering :=
  (Ord.compare a.name b.name).then (Ord.compare a.target b.target)

instance : Std.TransCmp EntryKey.compare :=
  inferInstanceAs (Std.TransCmp (compareLex (compareOn name) (compareOn target)))

instance : Std.LawfulEqCmp EntryKey.compare where
  eq_of_compare {a b} h := by
    simp only [EntryKey.compare, Ordering.then_eq_eq, Std.LawfulEqOrd.compare_eq_iff_eq] at h
    cases a
    cases b
    simp_all

theorem precedes_trans {a b c : EntryKey} (hab : a.precedes b) (hbc : b.precedes c) :
    a.precedes c :=
  (inferInstance : Std.TransCmp EntryKey.compare).isLE_trans hab hbc

theorem precedes_total (a b : EntryKey) : a.precedes b || b.precedes a := by
  have h : a.compare b = (b.compare a).swap := Std.OrientedCmp.eq_swap
  change (a.compare b).isLE || (b.compare a).isLE
  rw [h]
  cases b.compare a <;> rfl

theorem precedes_antisymm {a b : EntryKey} (hab : a.precedes b) (hba : b.precedes a) : a = b := by
  have h : a.compare b = .eq := Std.OrientedCmp.isLE_antisymm hab hba
  exact Std.LawfulEqCmp.eq_of_compare h

theorem compare_eq_lt {a b : EntryKey} (h : a.precedes b) (hne : a ≠ b) : a.compare b = .lt := by
  have hle : (a.compare b).isLE := h
  cases hc : a.compare b with
  | lt => rfl
  | eq => exact absurd (Std.LawfulEqCmp.eq_of_compare hc) hne
  | gt => simp [hc] at hle

end EntryKey

theorem entryKeys_pairwise (rows : List ReadRow) :
    (entryKeys rows).Pairwise fun a b => a.precedes b := by
  refine stableSort_pairwise ?_ ?_ _
  · exact fun _ _ _ => EntryKey.precedes_trans
  · exact EntryKey.precedes_total

/-- **Entries ascend strictly** by name and target. -/
theorem entries_ascending (imagePrefix : String) (rows : List ReadRow) :
    (entries imagePrefix rows).Pairwise fun d e =>
      (compare d.name e.name).then (compare d.target e.target) = .lt := by
  refine List.pairwise_map.2 ?_
  exact ((entryKeys_pairwise rows).and (nodup_entryKeys rows)).imp fun h =>
    EntryKey.compare_eq_lt h.1 h.2

/-! ## The form of entries -/

/-- An entry has artifacts, and some under each of its versions, which ascend in precedence. -/
structure Entry.WellFormed (e : Entry) : Prop where
  nonempty : e.artifacts ≠ []
  artifacts : ∀ x ∈ e.artifacts, x.2 ≠ []
  nodup : (e.artifacts.map Prod.fst).Nodup
  /-- The versions are those of the artifacts. -/
  versions : e.versions.Perm (e.artifacts.map Prod.fst)
  written : ∀ t ∈ e.versions, ∃ v, Version.parse t = .ok v
  ascending : e.versions.Pairwise fun s t =>
    ∀ v w, Version.parse s = .ok v → Version.parse t = .ok w → v.precedes w

theorem Entry.WellFormed.versions_ne_nil {e : Entry} (h : e.WellFormed) : e.versions ≠ [] := by
  intro hnil
  have hperm := h.versions
  rw [hnil] at hperm
  exact h.nonempty (List.map_eq_nil_iff.1 hperm.nil_eq.symm)

theorem mem_versions_artifacts {t : String} :
    t ∈ (artifactsByVersion imagePrefix rows).map Prod.fst ↔ ∃ r ∈ rows, r.version = some t := by
  simp [artifactsByVersion, mem_distinct]

theorem wellFormed_ofRows (hne : rows ≠ []) (hv : ∀ r ∈ rows, hasVersion r) :
    (Entry.ofRows imagePrefix key rows).WellFormed := by
  have hwritten : ∀ t ∈ (artifactsByVersion imagePrefix rows).map Prod.fst,
      (Version.ofText? t).isSome := by
    intro t ht
    obtain ⟨r, hr, hrt⟩ := mem_versions_artifacts.1 ht
    obtain ⟨t', ht', hsome⟩ := exists_version (hv r hr)
    obtain rfl : t = t' := Option.some.inj (hrt.symm.trans ht')
    exact hsome
  have hperm := ascending_perm hwritten
  refine ⟨?_, ?_, ?_, hperm, fun t ht => ?_, ascending_pairwise _⟩
  · obtain ⟨r, hr⟩ := List.exists_mem_of_ne_nil rows hne
    obtain ⟨t, ht, -⟩ := exists_version (hv r hr)
    have hmem : t ∈ (artifactsByVersion imagePrefix rows).map Prod.fst :=
      mem_versions_artifacts.2 ⟨r, hr, ht⟩
    rintro (hnil : artifactsByVersion imagePrefix rows = [])
    simp [hnil] at hmem
  · intro x hx
    have hmem : x.1 ∈ (artifactsByVersion imagePrefix rows).map Prod.fst := List.mem_map_of_mem hx
    obtain ⟨r, hr, hrt⟩ := mem_versions_artifacts.1 hmem
    obtain ⟨v, -, rfl⟩ := List.mem_map.1 hx
    have hr' : r ∈ rows.filter (·.version == some v) := List.mem_filter.2 ⟨hr, by simp [hrt]⟩
    exact List.ne_nil_of_mem (List.mem_map_of_mem hr')
  · change ((artifactsByVersion imagePrefix rows).map Prod.fst).Nodup
    unfold artifactsByVersion
    rw [List.map_map]
    exact (nodup_distinct (rows.filterMap (·.version))).map fun _ _ h => h
  · obtain ⟨v, hv⟩ := Option.isSome_iff_exists.1 (hwritten t (hperm.mem_iff.1 ht))
    exact ⟨v, Version.ofText?_eq_some.1 hv⟩

/-- **Entries of rows with versions are well formed.** -/
theorem wellFormed_of_mem_entries (hv : ∀ r ∈ rows, hasVersion r) {e : Entry}
    (he : e ∈ entries imagePrefix rows) : e.WellFormed := by
  obtain ⟨k, hk, rfl⟩ := List.mem_map.1 he
  refine wellFormed_ofRows ?_ fun r hr => hv r (List.mem_filter.1 hr).1
  obtain ⟨r, hr, rfl⟩ := List.mem_map.1 (mem_entryKeys.1 hk)
  exact List.ne_nil_of_mem (List.mem_filter.2 ⟨hr, by simp⟩)

end PluginCatalog
