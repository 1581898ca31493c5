import PluginCatalog.Proofs.Manifest.WellFormed

/-!
# Manifests written and read again

* `Manifest.misfits_toEntries`: in the mapping of a manifest nothing is of a wrong kind, and
  `Manifest.manifestIn_toEntries`: it stands for the manifest.
* `Manifest.rewritten` is what a mapping becomes when it is read and written.
* `Manifest.ofEntries_toEntries`: a manifest is read back from its mapping, so that what was read
  stays the same when it is written and read again.
-/

namespace PluginCatalog.Manifest

variable {m : Manifest} {entries : List (Value × Value)}

/-! ## The fields of the mapping -/

theorem fieldOrNull_inventory (m : Manifest) :
    fieldOrNull inventoryField m.toEntries = .text m.inventoryAddress := rfl

theorem fieldOrNull_images (m : Manifest) :
    fieldOrNull imagesField m.toEntries = .list (m.images.map imageValue) := rfl

theorem fieldOrNull_metadata (m : Manifest) :
    fieldOrNull metadataField m.toEntries = (m.metadata.map metadataValue).getD .null := by
  obtain ⟨inventoryAddress, metadata, images⟩ := m
  cases metadata <;> rfl

/-! ## What the mapping is read as -/

theorem imagesIn_imageValue (images : List ImageCopy) :
    imagesIn (.list (images.map imageValue)) = images := by
  have himage (image : ImageCopy) : imageIn (imageValue image) = image := rfl
  rw [imagesIn, List.map_map]
  exact List.map_id'' himage images

theorem imagesMisfits_imageValue (images : List ImageCopy) :
    imagesMisfits (.list (images.map imageValue)) = [] := by
  have himage (image : ImageCopy) : imageMisfits (imageValue image) = [] := rfl
  rw [imagesMisfits, List.flatMap_map, List.flatMap_eq_nil_iff]
  exact fun image _ => himage image

/-- **The mapping of a manifest** stands for it. -/
theorem manifestIn_toEntries (m : Manifest) : manifestIn m.toEntries = m := by
  have hmetadata : metadataIn ((m.metadata.map metadataValue).getD .null) = m.metadata := by
    cases m.metadata <;> rfl
  rw [manifestIn, fieldOrNull_inventory, fieldOrNull_images, fieldOrNull_metadata,
    imagesIn_imageValue, hmetadata]
  rfl

/-- **In the mapping of a manifest** nothing is of a wrong kind. -/
theorem misfits_toEntries (m : Manifest) : misfits m.toEntries = [] := by
  have hmetadata : metadataMisfits ((m.metadata.map metadataValue).getD .null) = [] := by
    cases m.metadata <;> rfl
  rw [misfits, fieldOrNull_inventory, fieldOrNull_images, fieldOrNull_metadata,
    imagesMisfits_imageValue, hmetadata]
  rfl

/-- A manifest is read back from its mapping. -/
theorem ofEntries_toEntries (m : Manifest) : ofEntries m.toEntries = .ok m :=
  (ends_ofEntries _).eq_ok_iff.2 ⟨misfits_toEntries m, manifestIn_toEntries m⟩

/-! ## Reading again -/

/-- The mapping of what a mapping is read as. -/
def rewritten (entries : List (Value × Value)) : Except Failure (List (Value × Value)) :=
  toEntries <$> ofEntries entries

/-- **A manifest is read back from its mapping**, whatever its texts and its images are, and with or
without a metadata image. So for a mapping that is read, the mapping written from it is read as the
same manifest, checked alike, and rewritten as itself. -/
theorem ofEntries_written :
    (∀ m : Manifest, ofEntries m.toEntries = .ok m) ∧
      ∀ (entries : List (Value × Value)) (m : Manifest), ofEntries entries = .ok m →
        ofEntries m.toEntries = ofEntries entries ∧ load m.toEntries = load entries ∧
          rewritten entries = .ok m.toEntries ∧ rewritten m.toEntries = .ok m.toEntries := by
  refine ⟨ofEntries_toEntries, fun entries m h => ?_⟩
  have hagain : ofEntries m.toEntries = ofEntries entries := (ofEntries_toEntries m).trans h.symm
  refine ⟨hagain, ?_, ?_, ?_⟩
  · rw [load, load, hagain]
  · rw [rewritten, h]
    rfl
  · rw [rewritten, ofEntries_toEntries]
    rfl

/-- Of two spellings the small one is read, and it alone is written. -/
theorem ofEntries_written_spellings :
    let image : Value := .map [(.text "SourceTarFilePath", .text "a"), (.text "x", .null)]
    let entries : List (Value × Value) :=
      [(.text "ImagesToCopy", .list [image]), (.text "inventoryMetadataImage", .null),
        (.text "InventoryMetadataImage", .int 1)]
    let m : Manifest := ⟨"", none, [⟨"a", ""⟩]⟩
    ofEntries entries = .ok m ∧ rewritten m.toEntries = .ok m.toEntries := by
  intro image entries m
  have h : ofEntries entries = .ok m := by decide +kernel
  exact ⟨h, (ofEntries_written.2 entries m h).2.2.2⟩

end PluginCatalog.Manifest
