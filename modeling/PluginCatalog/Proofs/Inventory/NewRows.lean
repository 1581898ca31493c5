import PluginCatalog.Inventory
import PluginCatalog.Proofs.Addresses
import PluginCatalog.Proofs.Inventory.Queries
import PluginCatalog.Proofs.Store.Inserting

/-!
# The rows of a new plugin

* `NewPlugin.Proper` says that all texts of a plugin are there, that its versions are written ones,
  each given once, and that it has a build; `NewPlugin.rows` are the rows of such a plugin as they
  are read back.
* `NewPlugin.Proper.admits_iff`: a table without rows of the plugin takes them exactly if no two
  builds of a version are for one platform, and then `NewPlugin.Proper.read_extended` says what is
  read from it.
-/

namespace PluginCatalog

/-! ## Proper plugins -/

/-- All texts of a build are there. -/
structure NewArtifact.Complete (a : NewArtifact) : Prop where
  os : a.os.isSome
  architecture : a.architecture.isSome
  digest : a.digest.isSome
  image : a.image.isSome
  uri : a.uri.isSome

instance (a : NewArtifact) : Decidable a.Complete :=
  decidable_of_iff (a.os.isSome ∧ a.architecture.isSome ∧ a.digest.isSome ∧ a.image.isSome ∧
    a.uri.isSome) ⟨fun ⟨h₁, h₂, h₃, h₄, h₅⟩ => ⟨h₁, h₂, h₃, h₄, h₅⟩,
      fun ⟨h₁, h₂, h₃, h₄, h₅⟩ => ⟨h₁, h₂, h₃, h₄, h₅⟩⟩

namespace NewPlugin

/-- All texts of a plugin are there, its versions are written ones, each of them given once, and it
has a build. -/
structure Proper (plugin : NewPlugin) : Prop where
  name : plugin.name.isSome
  target : plugin.target.isSome
  description : plugin.description.isSome
  publisher : plugin.publisher.isSome
  vendor : plugin.vendor.isSome
  recommended : plugin.recommended.isSome
  artifacts : ∀ b ∈ plugin.builds, ∀ a ∈ b.2, a.Complete
  versions : (plugin.builds.map Prod.fst).Nodup
  written : ∀ b ∈ plugin.builds, Version.isWritten b.1 = .ok true
  nonempty : ∃ b ∈ plugin.builds, b.2 ≠ []

/-- No two builds of a version are for one platform. -/
def PlatformsDiffer (plugin : NewPlugin) : Prop :=
  ∀ b ∈ plugin.builds, (b.2.map fun a => (a.os, a.architecture)).Nodup

instance (plugin : NewPlugin) : Decidable plugin.PlatformsDiffer :=
  inferInstanceAs (Decidable (∀ b ∈ plugin.builds, _))

/-- The key of the entry that shows a plugin. -/
def key (plugin : NewPlugin) : EntryKey := ⟨plugin.name, Target.normalize? plugin.target⟩

/-- The builds of a plugin, each with its version. -/
def flatBuilds (plugin : NewPlugin) : List (Option String × NewArtifact) :=
  plugin.builds.flatMap fun b => b.2.map (b.1, ·)

end NewPlugin

/-! ## Rows -/

/-- A row that is read, as one to be inserted. -/
def Row.flagged (r : ReadRow) : Row (Option Bool) := r.withHidden (some r.hidden)

/-- The address under which a build is stored that has an image. -/
def NewArtifact.address (imagePrefix : String) (a : NewArtifact) : Option String :=
  if Filter.isSet a.uri then a.uri else a.image.map (Address.relative imagePrefix)

theorem NewArtifact.Complete.storedUri {a : NewArtifact} (h : a.Complete) (imagePrefix : String) :
    Inventory.storedUri imagePrefix a = .ok (a.address imagePrefix) := by
  obtain ⟨image, himage⟩ := Option.isSome_iff_exists.1 h.image
  unfold Inventory.storedUri address
  rw [himage]
  split <;> rfl

theorem NewArtifact.Complete.address {a : NewArtifact} (h : a.Complete) (imagePrefix : String) :
    (a.address imagePrefix).isSome := by
  unfold NewArtifact.address
  split
  · exact h.uri
  · rw [Option.isSome_map]
    exact h.image

namespace NewPlugin

variable {plugin : NewPlugin}

/-- The row of a build as it is read back. -/
def row (imagePrefix : String) (plugin : NewPlugin) (x : Option String × NewArtifact) : ReadRow :=
  { name := plugin.name
    target := plugin.target
    recommended := plugin.recommended
    version := x.1
    hidden := false
    description := plugin.description
    publisher := plugin.publisher
    vendor := plugin.vendor
    os := x.2.os
    architecture := x.2.architecture
    digest := x.2.digest
    uri := x.2.address imagePrefix }

/-- The rows of a plugin as they are read back. -/
def rows (imagePrefix : String) (plugin : NewPlugin) : List ReadRow :=
  plugin.flatBuilds.map (plugin.row imagePrefix)

/-- The rows of a plugin as they are inserted. -/
def incoming (imagePrefix : String) (plugin : NewPlugin) : List (Row (Option Bool)) :=
  (plugin.rows imagePrefix).map Row.flagged

theorem mem_flatBuilds {x : Option String × NewArtifact} :
    x ∈ plugin.flatBuilds ↔ ∃ b ∈ plugin.builds, b.1 = x.1 ∧ x.2 ∈ b.2 := by
  unfold flatBuilds
  rw [List.mem_flatMap]
  refine exists_congr fun b => and_congr_right fun _ => ?_
  rw [List.mem_map]
  constructor
  · rintro ⟨a, ha, rfl⟩
    exact ⟨rfl, ha⟩
  · rintro ⟨hb, ha⟩
    exact ⟨x.2, ha, Prod.ext hb rfl⟩

variable {imagePrefix : String}

theorem mem_rows {r : ReadRow} : r ∈ plugin.rows imagePrefix ↔
    ∃ b ∈ plugin.builds, ∃ a ∈ b.2, plugin.row imagePrefix (b.1, a) = r := by
  unfold rows
  rw [List.mem_map]
  constructor
  · rintro ⟨x, hx, rfl⟩
    obtain ⟨b, hb, hbx, ha⟩ := mem_flatBuilds.1 hx
    exact ⟨b, hb, x.2, ha, by rw [hbx]⟩
  · rintro ⟨b, hb, a, ha, rfl⟩
    exact ⟨(b.1, a), mem_flatBuilds.2 ⟨b, hb, rfl, ha⟩, rfl⟩

/-- The rows of a plugin are of its name and target. -/
theorem entryKey_of_mem_rows {r : ReadRow} (hr : r ∈ plugin.rows imagePrefix) :
    entryKey r = plugin.key := by
  obtain ⟨b, -, a, -, rfl⟩ := mem_rows.1 hr
  rfl

namespace Proper

variable (h : plugin.Proper)

include h

theorem rows_ne_nil : plugin.rows imagePrefix ≠ [] := by
  obtain ⟨b, hb, hne⟩ := h.nonempty
  obtain ⟨a, ha⟩ := List.exists_mem_of_ne_nil _ hne
  exact List.ne_nil_of_mem (mem_rows.2 ⟨b, hb, a, ha, rfl⟩)

theorem complete_of_mem_rows {r : ReadRow} (hr : r ∈ plugin.rows imagePrefix) : r.Complete := by
  obtain ⟨b, hb, a, ha, rfl⟩ := mem_rows.1 hr
  have hversion : b.1.isSome := by
    obtain ⟨t, ht, -⟩ := exists_version (r := plugin.row imagePrefix (b.1, a))
      (hasVersion_iff.2 (h.written b hb))
    exact Option.isSome_iff_exists.2 ⟨t, ht⟩
  have hcomplete := h.artifacts b hb a ha
  simp [Row.Complete, Row.missing?, Row.columns, row, h.name, h.target, h.recommended,
    h.description, h.publisher, h.vendor, hversion, hcomplete.os, hcomplete.architecture,
    hcomplete.digest, hcomplete.address]

theorem isWritten_of_mem_rows {r : ReadRow} (hr : r ∈ plugin.rows imagePrefix) :
    Version.isWritten r.version = .ok true := by
  obtain ⟨b, hb, a, -, rfl⟩ := mem_rows.1 hr
  exact h.written b hb

theorem newRows (imagePrefix : String) :
    Inventory.newRows imagePrefix plugin = .ok (plugin.incoming imagePrefix) := by
  have hrow : ∀ x ∈ plugin.flatBuilds, Inventory.newRow imagePrefix plugin x.1 x.2 =
      .ok (plugin.row imagePrefix x).flagged := by
    intro x hx
    obtain ⟨b, hb, -, ha⟩ := mem_flatBuilds.1 hx
    unfold Inventory.newRow
    rw [(h.artifacts b hb x.2 ha).storedUri]
    rfl
  rw [incoming, rows, List.map_map]
  exact mapM_eq_ok hrow

/-- A row that is inserted is read as it was. -/
theorem readRow_of_mem_rows {r : ReadRow} (hr : r ∈ plugin.rows imagePrefix) :
    Table.readRow (Table.storedRow r.flagged) = r :=
  Table.readRow_storedReadRow (h.complete_of_mem_rows hr)

/-- No two rows have one key exactly if no two builds of a version are for one platform. -/
theorem nodup_key_rows (imagePrefix : String) :
    ((plugin.rows imagePrefix).map Row.key).Nodup ↔ plugin.PlatformsDiffer := by
  have hkeys : (plugin.rows imagePrefix).map Row.key = plugin.builds.flatMap fun b =>
      (b.2.map fun a => (a.os, a.architecture)).map fun p =>
        (⟨plugin.name, plugin.target, b.1, p.1, p.2⟩ : Key) := by
    unfold rows flatBuilds
    simp only [List.map_flatMap, List.map_map]
    rfl
  have hversions : plugin.builds.Pairwise fun b c => b.1 ≠ c.1 := List.pairwise_map.1 h.versions
  rw [hkeys, List.nodup_flatMap]
  constructor
  · rintro ⟨hnodup, -⟩ b hb
    exact (hnodup b hb).of_map _
  · refine fun hdiffer => ⟨fun b hb => (hdiffer b hb).map ?_, hversions.imp fun hbc => ?_⟩
    · rintro ⟨os, architecture⟩ ⟨os', architecture'⟩ he
      simpa using he
    · refine List.disjoint_left.2 fun k hb hc => hbc ?_
      obtain ⟨p, -, rfl⟩ := List.mem_map.1 hb
      obtain ⟨q, -, hq⟩ := List.mem_map.1 hc
      exact (Key.mk.inj hq).2.2.1.symm

/-- **A table without rows of the plugin** takes its rows exactly if no two builds of a version are
for one platform. -/
theorem admits_iff (imagePrefix : String) {l : Table} (hl : l.Standard)
    (hnew : ∀ r ∈ l.read, entryKey r ≠ plugin.key) :
    l.Admits (plugin.incoming imagePrefix) ↔ plugin.PlatformsDiffer := by
  have hkeys : (plugin.incoming imagePrefix).map Row.key =
      (plugin.rows imagePrefix).map Row.key := by
    rw [incoming, List.map_map]
    rfl
  rw [← h.nodup_key_rows imagePrefix, ← hkeys]
  refine ⟨fun ha => (List.nodup_append.1 ha.keys).2.1, fun hnodup => ⟨fun s hs => ?_, ?_⟩⟩
  · obtain ⟨r, hr, rfl⟩ := List.mem_map.1 hs
    exact ⟨(h.complete_of_mem_rows hr).withHidden _, rfl⟩
  · refine List.nodup_append.2 ⟨hl.keys, hnodup, fun k hk k' hk' he => ?_⟩
    obtain ⟨s, hs, rfl⟩ := List.mem_map.1 hk
    rw [hkeys] at hk'
    obtain ⟨r, hr, rfl⟩ := List.mem_map.1 hk'
    refine hnew _ (Table.mem_read.2 ⟨s, hs, rfl⟩) ?_
    rw [← entryKey_of_mem_rows hr]
    obtain ⟨hname, htarget, -⟩ := Key.mk.inj he
    exact congrArg₂ EntryKey.mk hname (congrArg Target.normalize? htarget)

/-- **What is read afterwards**: the rows that were there, and those of the plugin. -/
theorem read_extended (imagePrefix : String) {l : Table}
    (hnew : ∀ r ∈ l.read, entryKey r ≠ plugin.key) :
    ∃ own, own.Perm (plugin.rows imagePrefix) ∧
      (l.extended (plugin.incoming imagePrefix)).read.filter (entryKey · == plugin.key) = own ∧
      ((l.extended (plugin.incoming imagePrefix)).read.filter fun r =>
        !(entryKey r == plugin.key)) = l.read := by
  have hkeys : ∀ s ∈ plugin.incoming imagePrefix,
      entryKey (Table.readRow (Table.storedRow s)) == plugin.key := by
    intro s hs
    obtain ⟨r, hr, rfl⟩ := List.mem_map.1 hs
    rw [h.readRow_of_mem_rows hr, beq_iff_eq]
    exact entryKey_of_mem_rows hr
  obtain ⟨hown, hothers⟩ := Table.read_extended_filter
    (fun r hr => mt beq_iff_eq.1 (hnew r hr)) hkeys
  refine ⟨_, (Table.read_perm _).trans (List.Perm.of_eq ?_), hown, hothers⟩
  rw [incoming, List.map_map, List.map_map]
  exact (List.map_congr_left fun r hr => h.readRow_of_mem_rows hr).trans (List.map_id _)

end Proper

end NewPlugin

end PluginCatalog
