import PluginCatalog.Proofs.Inventory.Descriptions
import PluginCatalog.Proofs.Inventory.Insertions
import PluginCatalog.Proofs.Inventory.NewRows

/-!
# Reading back what was inserted

* `NewArtifact.ReadsBack` is how a build is shown that was inserted, and `Entry.Shows` how the
  plugin is.
* `NewPlugin.Proper.shows_ofRows`: the entry of the rows of a plugin shows it.
* `entries_more`: rows of one key more give one entry more, and leave the others as they are.
* `insert_reads_back`: a plugin is inserted exactly if no two of its builds of one version are for
  one platform, and then one entry more is answered, which shows it.
-/

namespace PluginCatalog

variable {σ : Type} {imagePrefix : String} {plugin : NewPlugin} {rows : List ReadRow}

/-! ## What is shown -/

/-- How a build is shown: an address that was given is kept; else the address is the path of the
image below the common beginning, or the image itself if it lies elsewhere. -/
structure NewArtifact.ReadsBack (imagePrefix : String) (a : NewArtifact) (shown : Artifact) :
    Prop where
  os : shown.os = a.os
  architecture : shown.architecture = a.architecture
  digest : shown.digest = a.digest
  kept : ∀ uri, a.uri = some uri → uri ≠ "" → shown.uri = some uri
  below : ∀ path, a.uri = some "" → a.image = some (Address.below imagePrefix path) →
    shown.uri = some path ∧ (path.toList.head? ≠ some '/' → shown.image = a.image)
  elsewhere : ∀ image, a.uri = some "" → a.image = some image →
    (∀ path, image ≠ Address.below imagePrefix path) → shown.uri = some image
  image : shown.image = shown.uri.map (Address.resolve imagePrefix)

/-- An entry shows a plugin: its texts, its versions with builds in ascending precedence, for each
of them the builds by platform, and the version it recommends, or else one of the highest. -/
structure Entry.Shows (imagePrefix : String) (plugin : NewPlugin) (e : Entry) : Prop where
  name : e.name = plugin.name
  target : e.target = Target.normalize? plugin.target
  description : e.description = plugin.description
  publisher : e.publisher = plugin.publisher
  vendor : e.vendor = plugin.vendor
  wellFormed : e.WellFormed
  versions : ∀ t, t ∈ e.versions ↔ ∃ artifacts, (some t, artifacts) ∈ plugin.builds ∧ artifacts ≠ []
  artifacts : ∀ t artifacts, (some t, artifacts) ∈ plugin.builds → artifacts ≠ [] →
    ∃ shown, (t, shown) ∈ e.artifacts ∧
      (shown.Pairwise fun a b =>
        (compare a.os b.os).then (compare a.architecture b.architecture) = .lt) ∧
      ∃ given, artifacts.Perm given ∧ List.Forall₂ (NewArtifact.ReadsBack imagePrefix) given shown
  recommended : ∀ t, plugin.recommended = some t → t ≠ "" → e.recommended = t
  highest : plugin.recommended = some "" → e.recommended ∈ e.versions ∧
    ∀ t ∈ e.versions, ∀ v w, Version.parse t = .ok v → Version.parse e.recommended = .ok w →
      v.precedes w

/-! ## The entry of the rows of a plugin -/

/-- A build as the entry of its row shows it. -/
def NewPlugin.shown (imagePrefix : String) (plugin : NewPlugin)
    (x : Option String × NewArtifact) : Artifact :=
  .ofRow imagePrefix (plugin.row imagePrefix x)

/-- A build is read back from its row. -/
theorem readsBack_shown (hset : imagePrefix ≠ "") (plugin : NewPlugin)
    (x : Option String × NewArtifact) : x.2.ReadsBack imagePrefix (plugin.shown imagePrefix x) where
  os := rfl
  architecture := rfl
  digest := rfl
  kept uri huri hne := by
    simp [NewPlugin.shown, Artifact.ofRow, NewPlugin.row, NewArtifact.address, Filter.isSet, huri,
      hne]
  below path huri himage := by
    have haddress : x.2.address imagePrefix = some path := by
      simp [NewArtifact.address, Filter.isSet, huri, himage, Address.relative_below hset]
    refine ⟨haddress, fun hpath => ?_⟩
    change (x.2.address imagePrefix).map (Address.resolve imagePrefix) = _
    rw [haddress, himage, Option.map_some, Address.resolve_eq_below hset hpath]
  elsewhere image huri himage helse := by
    simp [NewPlugin.shown, Artifact.ofRow, NewPlugin.row, NewArtifact.address, Filter.isSet, huri,
      himage, Address.relative_of_ne_below helse]
  image := rfl

/-- Rows of one plugin, target and version ascend by platform. -/
theorem platform_of_compare_key {r s : ReadRow} (hname : r.name = s.name)
    (htarget : r.target = s.target) (hversion : r.version = s.version)
    (h : r.key.compare s.key = .lt) :
    (compare r.os s.os).then (compare r.architecture s.architecture) = .lt := by
  simpa [Key.compare, Row.key, hname, htarget, hversion] using h

/-- Rows that recommend one version: so does their entry, unless it is the empty one; then the entry
recommends the newest version. -/
theorem recommended_of_same (imagePrefix : String) (key : EntryKey) (hne : rows ≠ [])
    (hv : ∀ r ∈ rows, hasVersion r) {u : String} (hsame : ∀ r ∈ rows, r.recommended = some u) :
    (u ≠ "" → (Entry.ofRows imagePrefix key rows).recommended = u) ∧
      (u = "" → Newest rows (Entry.ofRows imagePrefix key rows).recommended) := by
  rcases recommended_newest imagePrefix key hne hv with hlast | ⟨hnone, hnewest⟩
  · obtain ⟨hempty, before, r, after, hsplit, hr, -⟩ := hlast
    have hmem : r ∈ rows := by simp [hsplit]
    have hu := Option.some.inj (hr.symm.trans (hsame r hmem))
    exact ⟨fun _ => hu, fun h => absurd (hu.trans h) hempty⟩
  · have hmem := List.getLast_mem hne
    exact ⟨fun h => absurd (hnone _ hmem u (hsame _ hmem)) h, fun _ => hnewest⟩

/-- Tagged elements can be selected by their tag before they are put together or after. -/
theorem filter_tagged {κ α : Type} [BEq κ] (v : κ) (l : List (κ × List α)) :
    (l.flatMap fun b => b.2.map (b.1, ·)).filter (·.1 == v) =
      (l.filter (·.1 == v)).flatMap fun b => b.2.map (b.1, ·) := by
  induction l with
  | nil => rfl
  | cons b l ih =>
    rw [List.flatMap_cons, List.filter_append, ih]
    by_cases hb : b.1 == v
    · simp [hb, List.filter_map, Function.comp_def]
    · simp [hb, List.filter_map, Function.comp_def]

namespace NewPlugin

/-- The versions of the rows are those with builds. -/
theorem exists_row_version (imagePrefix : String) {v : Option String} :
    (∃ r ∈ plugin.rows imagePrefix, r.version = v) ↔
      ∃ artifacts, (v, artifacts) ∈ plugin.builds ∧ artifacts ≠ [] := by
  constructor
  · rintro ⟨r, hr, rfl⟩
    obtain ⟨b, hb, a, ha, rfl⟩ := mem_rows.1 hr
    exact ⟨b.2, hb, List.ne_nil_of_mem ha⟩
  · rintro ⟨artifacts, hb, hne⟩
    obtain ⟨a, ha⟩ := List.exists_mem_of_ne_nil _ hne
    exact ⟨_, mem_rows.2 ⟨(v, artifacts), hb, a, ha, rfl⟩, rfl⟩

namespace Proper

/-- The rows of a version are those of its builds. -/
theorem rows_filter_version (h : plugin.Proper) {v : Option String} {artifacts : List NewArtifact}
    (hb : (v, artifacts) ∈ plugin.builds) : (plugin.rows imagePrefix).filter (·.version == v) =
      artifacts.map fun a => plugin.row imagePrefix (v, a) := by
  have hbuilds : plugin.builds.filter (·.1 == v) = [(v, artifacts)] :=
    filter_eq_singleton h.versions hb
  rw [rows, List.filter_map]
  change (plugin.flatBuilds.filter (·.1 == v)).map _ = _
  rw [flatBuilds, filter_tagged, hbuilds, List.flatMap_singleton, List.map_map]
  rfl

/-- The builds of a version are shown by platform. -/
theorem shown_artifacts (h : plugin.Proper) (hset : imagePrefix ≠ "")
    (hrows : rows.Perm (plugin.rows imagePrefix))
    (hascending : rows.Pairwise fun a b => a.key.compare b.key = .lt) {t : String}
    {artifacts : List NewArtifact} (hb : (some t, artifacts) ∈ plugin.builds) :
    let shown := (rows.filter (·.version == some t)).map (Artifact.ofRow imagePrefix)
    (shown.Pairwise fun a b =>
      (compare a.os b.os).then (compare a.architecture b.architecture) = .lt) ∧
    ∃ given, artifacts.Perm given ∧
      List.Forall₂ (NewArtifact.ReadsBack imagePrefix) given shown := by
  intro shown
  constructor
  · refine List.pairwise_map.2 ((hascending.filter _).imp_of_mem fun {r s} hr hs hlt => ?_)
    obtain ⟨hr, hrt⟩ := List.mem_filter.1 hr
    obtain ⟨hs, hst⟩ := List.mem_filter.1 hs
    obtain ⟨b, -, a, -, rfl⟩ := mem_rows.1 (hrows.mem_iff.1 hr)
    obtain ⟨c, -, a', -, rfl⟩ := mem_rows.1 (hrows.mem_iff.1 hs)
    exact platform_of_compare_key rfl rfl ((beq_iff_eq.1 hrt).trans (beq_iff_eq.1 hst).symm) hlt
  · have hperm : shown.Perm (artifacts.map fun a => plugin.shown imagePrefix (some t, a)) := by
      have hfilter := (hrows.filter (·.version == some t)).map (Artifact.ofRow imagePrefix)
      rwa [h.rows_filter_version hb, List.map_map] at hfilter
    have hshown : List.Forall₂ (NewArtifact.ReadsBack imagePrefix) artifacts
        (artifacts.map fun a => plugin.shown imagePrefix (some t, a)) := by
      rw [List.forall₂_map_right_iff, List.forall₂_same]
      exact fun a _ => readsBack_shown hset plugin (some t, a)
    have hcomp : Relation.Comp (List.Forall₂ (NewArtifact.ReadsBack imagePrefix)) List.Perm
        artifacts shown := ⟨_, hshown, hperm.symm⟩
    rwa [List.forall₂_comp_perm_eq_perm_comp_forall₂] at hcomp

/-- **The entry of the rows of a plugin** shows it. -/
theorem shows_ofRows (h : plugin.Proper) (hset : imagePrefix ≠ "")
    (hrows : rows.Perm (plugin.rows imagePrefix))
    (hascending : rows.Pairwise fun a b => a.key.compare b.key = .lt) :
    (Entry.ofRows imagePrefix plugin.key rows).Shows imagePrefix plugin := by
  have hne : rows ≠ [] := fun hnil => h.rows_ne_nil (hnil ▸ hrows).nil_eq.symm
  have hv : ∀ r ∈ rows, hasVersion r := fun r hr =>
    hasVersion_iff.2 (h.isWritten_of_mem_rows (hrows.mem_iff.1 hr))
  have hrow : ∀ r ∈ rows, ∃ x, plugin.row imagePrefix x = r := by
    intro r hr
    obtain ⟨b, -, a, -, hx⟩ := mem_rows.1 (hrows.mem_iff.1 hr)
    exact ⟨_, hx⟩
  obtain ⟨x, hx⟩ := hrow _ (List.getLast_mem hne)
  have hlast : rows.getLast? = some (plugin.row imagePrefix x) := by
    rw [List.getLast?_eq_some_getLast hne, hx]
  have hversions : ∀ t, t ∈ (Entry.ofRows imagePrefix plugin.key rows).versions ↔
      ∃ r ∈ rows, r.version = some t :=
    fun t => mem_versions_ofRows imagePrefix plugin.key hne hv
  have hrecommends : ∀ u, plugin.recommended = some u → ∀ r ∈ rows, r.recommended = some u := by
    intro u hu r hr
    obtain ⟨x, rfl⟩ := hrow r hr
    exact hu
  exact {
    name := rfl
    target := rfl
    description := by rw [Entry.ofRows, hlast]; rfl
    publisher := by rw [Entry.ofRows, hlast]; rfl
    vendor := by rw [Entry.ofRows, hlast]; rfl
    wellFormed := wellFormed_ofRows hne hv
    versions := fun t => by
      rw [hversions, ← exists_row_version imagePrefix]
      simp only [hrows.mem_iff]
    artifacts := fun t artifacts hb hartifacts => by
      refine ⟨_, ?_, h.shown_artifacts hset hrows hascending hb⟩
      obtain ⟨r, hr, hrt⟩ := (exists_row_version imagePrefix).2 ⟨artifacts, hb, hartifacts⟩
      refine List.mem_map.2 ⟨t, mem_distinct.2 ?_, rfl⟩
      exact List.mem_filterMap.2 ⟨r, hrows.mem_iff.2 hr, hrt⟩
    recommended := fun t ht htne =>
      (recommended_of_same imagePrefix plugin.key hne hv (hrecommends t ht)).1 htne
    highest := fun hempty => by
      have hnewest :=
        (recommended_of_same imagePrefix plugin.key hne hv (hrecommends "" hempty)).2 rfl
      refine ⟨(hversions _).2 hnewest.mem, fun t ht v w hv hw => ?_⟩
      obtain ⟨r, hr, hrt⟩ := (hversions t).1 ht
      exact hnewest.highest r hr t v w hrt hv hw }

end Proper

end NewPlugin

/-! ## One entry more -/

/-- The entry of a key stands among the entries of the other keys. -/
theorem entries_split (imagePrefix : String) {key : EntryKey} (hkey : key ∈ rows.map entryKey) :
    ∃ before after, entries imagePrefix rows = before ++ entryOf imagePrefix rows key :: after ∧
      entries imagePrefix (rows.filter fun r => !(entryKey r == key)) = before ++ after := by
  obtain ⟨lower, higher, hsplit⟩ := List.append_of_mem (mem_entryKeys.2 hkey)
  have hnodup := nodup_entryKeys rows
  rw [hsplit, List.nodup_middle] at hnodup
  have hother : ∀ k ∈ lower ++ higher, k ≠ key := fun k hk he =>
    (List.nodup_cons.1 hnodup).1 (he ▸ hk)
  have hself : (lower ++ higher).filter (fun k => !(k == key)) = lower ++ higher :=
    List.filter_eq_self.2 fun k hk => by simp [hother k hk]
  have hrest : (entryKeys rows).filter (fun k => !(k == key)) = lower ++ higher := by
    rw [hsplit, List.filter_append, List.filter_cons_of_neg (by simp), ← List.filter_append, hself]
  refine ⟨lower.map (entryOf imagePrefix rows), higher.map (entryOf imagePrefix rows), ?_, ?_⟩
  · rw [entries_eq_map_entryOf, hsplit, List.map_append, List.map_cons]
  · rw [entries_filter_key imagePrefix fun k => !(k == key), entries_eq_map_entryOf,
      List.filter_map]
    change ((entryKeys rows).filter fun k => !(k == key)).map _ = _
    rw [hrest, List.map_append]

/-- **Rows of one key more** give one entry more, and leave the others as they are. -/
theorem entries_more (imagePrefix : String) {key : EntryKey} {own others : List ReadRow}
    (hown : rows.filter (entryKey · == key) = own)
    (hothers : (rows.filter fun r => !(entryKey r == key)) = others) (hne : own ≠ [])
    (hv : ∀ r ∈ own, hasVersion r) :
    ∃ before after, entries imagePrefix (rows.filter hasVersion) =
        before ++ Entry.ofRows imagePrefix key own :: after ∧
      entries imagePrefix (others.filter hasVersion) = before ++ after := by
  have hkey : (rows.filter hasVersion).filter (entryKey · == key) = own := by
    rw [List.filter_comm, hown]
    exact List.filter_eq_self.2 hv
  obtain ⟨r, hr⟩ := List.exists_mem_of_ne_nil own hne
  obtain ⟨hmem, hrkey⟩ := List.mem_filter.1 (hkey ▸ hr)
  obtain rfl := beq_iff_eq.1 hrkey
  obtain ⟨before, after, hall, hrest⟩ :=
    entries_split imagePrefix (List.mem_map_of_mem (f := entryKey) hmem)
  rw [List.filter_comm, hothers] at hrest
  rw [entryOf, hkey] at hall
  exact ⟨before, after, hall, hrest⟩

namespace NewPlugin.Proper

variable {i : Inventory} {w w' w₀ : World σ} {l : Table} {es : List Entry}

/-- **An insertion** into a store without rows of the plugin succeeds exactly if no two builds of a
version are for one platform, and else changes nothing. -/
theorem insert_cases (h : plugin.Proper) (hl : storeAt w.files i.storePath = .ok (.table l))
    (hs : l.Standard) (hnew : ∀ r ∈ l.read, entryKey r ≠ plugin.key) :
    (plugin.PlatformsDiffer ∧ ∃ w', (i.insert plugin).exec w = (.ok (), w') ∧
      storeAt w'.files i.storePath = .ok (.table (l.extended (plugin.incoming i.imagePrefix)))) ∨
    ¬plugin.PlatformsDiffer ∧ ∃ cause w',
      (i.insert plugin).exec w = (.error (.store (.notInserted cause)), w') ∧
      storeAt w'.files i.storePath = .ok (.table l) := by
  have hrows := h.newRows i.imagePrefix
  rw [← h.admits_iff i.imagePrefix hs hnew]
  obtain ⟨answer, w', l', hx, hl', hstep⟩ := i.insert_step plugin hl
  cases hstep with
  | faulty hrows' => cases hrows'.symm.trans hrows
  | refused hrows' hi =>
    obtain rfl := Except.ok.inj (hrows'.symm.trans hrows)
    refine .inr ⟨fun ha => ?_, _, w', hx, hl'⟩
    cases hi.symm.trans (hs.insert_eq_ok_iff.2 ⟨ha, rfl⟩)
  | inserted hrows' hi =>
    obtain rfl := Except.ok.inj (hrows'.symm.trans hrows)
    obtain ⟨ha, rfl⟩ := hs.insert_eq_ok_iff.1 hi
    exact .inl ⟨ha, w', hx, hl'⟩

/-- **What is answered after an insertion** into a store without rows of the plugin: the entries
from before, and among them one that shows the plugin. -/
theorem plugins_extended (h : plugin.Proper) (hset : i.imagePrefix ≠ "")
    (hl : storeAt w.files i.storePath = .ok (.table l)) (hs : l.Standard)
    (hnew : ∀ r ∈ l.read, entryKey r ≠ plugin.key) (hes : (i.plugins {}).exec w = (.ok es, w₀))
    (hdiffer : plugin.PlatformsDiffer) (hl' : storeAt w'.files i.storePath =
      .ok (.table (l.extended (plugin.incoming i.imagePrefix)))) :
    ∃ before e after w'', es = before ++ after ∧
      (i.plugins {}).exec w' = (.ok (before ++ e :: after), w'') ∧
      e.Shows i.imagePrefix plugin := by
  obtain ⟨hfault, rfl⟩ := plugins_all_inv hl hes
  obtain ⟨own, hperm, hown, hothers⟩ := h.read_extended i.imagePrefix hnew
  have hs' := hs.extended ((h.admits_iff i.imagePrefix hs hnew).2 hdiffer)
  have hv : ∀ r ∈ own, Version.isWritten r.version = .ok true :=
    fun r hr => h.isWritten_of_mem_rows (hperm.mem_iff.1 hr)
  have hne : own ≠ [] := fun hnil => h.rows_ne_nil (hnil ▸ hperm).nil_eq.symm
  -- The rows that were there have no faults, since there was an answer.
  have hfault' : ∀ r ∈ (l.extended (plugin.incoming i.imagePrefix)).read,
      faultOf i.imagePrefix r = none := by
    intro r hr
    have hparts := (List.filter_append_perm (entryKey · == plugin.key) _).mem_iff.2 hr
    rw [hown, hothers] at hparts
    rcases List.mem_append.1 hparts with hr' | hr'
    · exact faultOf_eq_none (hv r hr') (hs'.complete_of_mem_read hr).uri
    · exact hfault r hr'
  obtain ⟨w'', hexec⟩ := exec_plugins_all hl' hs' hfault'
  obtain ⟨before, after, hmore, hrest⟩ := entries_more i.imagePrefix hown hothers hne fun r hr =>
    hasVersion_iff.2 (hv r hr)
  rw [hmore] at hexec
  refine ⟨before, _, after, w'', hrest, hexec, ?_⟩
  exact h.shows_ofRows hset hperm (hown ▸ hs'.read_ascending.filter _)

end NewPlugin.Proper

/-- **Inserting and reading back.** A plugin of which a store has no rows is inserted exactly if no
two of its builds of one version are for one platform; else nothing changes. After the insertion the
entries from before are answered, and among them one that shows the plugin. -/
theorem insert_reads_back {i : Inventory} {w w₀ : World σ} {l : Table} {es : List Entry}
    (hl : storeAt w.files i.storePath = .ok (.table l)) (hs : l.Standard)
    (hset : i.imagePrefix ≠ "") (h : plugin.Proper)
    (hnew : ∀ r ∈ l.read, entryKey r ≠ plugin.key) (hes : (i.plugins {}).exec w = (.ok es, w₀)) :
    (plugin.PlatformsDiffer → ∃ w' w'' before e after, (i.insert plugin).exec w = (.ok (), w') ∧
      es = before ++ after ∧ (i.plugins {}).exec w' = (.ok (before ++ e :: after), w'') ∧
      e.Shows i.imagePrefix plugin) ∧
    (¬plugin.PlatformsDiffer → ∃ cause w',
      (i.insert plugin).exec w = (.error (.store (.notInserted cause)), w') ∧
      storeAt w'.files i.storePath = .ok (.table l)) := by
  rcases h.insert_cases hl hs hnew with ⟨hdiffer, w', hx, hl'⟩ | ⟨hnot, hfailed⟩
  · refine ⟨fun _ => ?_, fun hnot => absurd hdiffer hnot⟩
    obtain ⟨before, e, after, w'', hsplit, hexec, hshows⟩ :=
      h.plugins_extended hset hl hs hnew hes hdiffer hl'
    exact ⟨w', w'', before, e, after, hx, hsplit, hexec, hshows⟩
  · exact ⟨fun hdiffer => absurd hdiffer hnot, fun _ => hfailed⟩

/-- A plugin with an image below the common beginning, one elsewhere and an address, and a version
without builds, is inserted into a store with rows of its name and of its target; with two builds
for one platform it is not. -/
theorem insert_reads_back_platforms :
    let build (os image uri : String) : NewArtifact :=
      ⟨some os, some "amd64", some "d", some image, some uri⟩
    let plugin (artifacts : List NewArtifact) : NewPlugin :=
      ⟨some "apps", some "k8s", some "all apps", some "p", some "v", some "",
        [(some "v1.10.0", artifacts), (some "v1.9.0", [build "linux" "" "apps:v1.9.0"]),
          (some "v0.1.0", [])]⟩
    let apart := [build "linux" "r.io/plugins/apps:v1.10.0" "", build "darwin" "gcr.io/apps" ""]
    let double := build "linux" "" "a" :: apart
    let l : Table := ⟨.standard, [sampleRow "login" "k8s" "v1.0.0", sampleRow "apps" "tmc" "v1.0.0",
      sampleRow "apps" "K8" "v1.0.0"]⟩
    let i : Inventory := ⟨"/", "r.io/plugins/"⟩
    let w : World Unit := ⟨⟨[], [(["plugin_inventory.db"], .file 0 (.store (.table l)))]⟩, [], ()⟩
    (∃ w₀ w' w'' before e after, (i.plugins {}).exec w = (.ok (before ++ after), w₀) ∧
      (i.insert (plugin apart)).exec w = (.ok (), w') ∧
      (i.plugins {}).exec w' = (.ok (before ++ e :: after), w'') ∧
      e.Shows i.imagePrefix (plugin apart)) ∧
    ∃ cause w', (i.insert (plugin double)).exec w = (.error (.store (.notInserted cause)), w') ∧
      storeAt w'.files i.storePath = .ok (.table l) := by
  intro build plugin apart double l i w
  have hl : storeAt w.files i.storePath = .ok (.table l) := by rfl
  have hs : l.Standard := ⟨rfl, by decide, by decide⟩
  have hproper : ∀ artifacts, (∀ a ∈ artifacts, a.Complete) → (plugin artifacts).Proper := by
    intro artifacts hartifacts
    have hcomplete : (build "linux" "" "apps:v1.9.0").Complete := by decide
    refine ⟨rfl, rfl, rfl, rfl, rfl, rfl, ?_, ?_, ?_, ?_⟩
    · simpa [plugin, hcomplete] using hartifacts
    · simp [plugin]
    · simp only [plugin, List.forall_mem_cons]
      exact ⟨rfl, rfl, rfl, by simp⟩
    · exact ⟨_, List.mem_cons_of_mem _ List.mem_cons_self, by simp⟩
  have hnew : ∀ r ∈ l.read, entryKey r ≠ ⟨some "apps", "kubernetes"⟩ := by decide +kernel
  have hfault : ∀ r ∈ l.read.filter ({} : Filter).admits, faultOf i.imagePrefix r = none := by
    decide +kernel
  have hn : ∀ r ∈ l.read.filter ({} : Filter).admits, r.name.isSome := by decide +kernel
  obtain ⟨w₀, hes⟩ := exec_plugins_ok (rowsAt_of_storeAt hl) (by simp) hfault hn
  constructor
  · have happart : (plugin apart).Proper := hproper apart (by decide)
    obtain ⟨w', w'', before, e, after, hx, hsplit, hexec, hshows⟩ :=
      (insert_reads_back hl hs (by decide) happart hnew hes).1 (by decide)
    exact ⟨w₀, w', w'', before, e, after, hsplit ▸ hes, hx, hexec, hshows⟩
  · have hdouble : (plugin double).Proper := hproper double (by decide)
    exact (insert_reads_back hl hs (by decide) hdouble hnew hes).2 (by decide)

end PluginCatalog
