import Mathlib.Data.List.Forall2
import PluginCatalog.Manifest
import PluginCatalog.Proofs.Execution
import PluginCatalog.Proofs.Literals

/-!
# Well-formed manifests

A manifest is read in two passes: one refuses values of a wrong kind, the other one what is missing
or empty. Together they let through the well-formed documents alone.

* `Manifest.Describes` says what a well-formed document looks like, and which manifest it describes.
* `Manifest.misfits` are the values of a wrong kind in the order in which they are read.
  `Manifest.Ends` says how a reading with these misfits ends: the first one decides.
* `Manifest.ends_ofEntries` is the first pass, `Manifest.check_eq_ok_iff` the second one, and
  `Manifest.describes_map_iff` what both come to.
* `Manifest.ofFile_eq_ok_iff_describes`: which documents are taken for which manifests, and how all
  others are refused.
-/

namespace PluginCatalog.Manifest

variable {entries : List (Value × Value)} {v : Value} {s : String}

/-! ## What a well-formed document looks like -/

/-- The value that counts for a field with two spellings: that of the first one if it is there. -/
def effective (camel pascal : String) (entries : List (Value × Value)) : Option Value :=
  (Value.lookup? camel entries).or (Value.lookup? pascal entries)

/-- A field holds a text that is not empty. -/
def HoldsText (camel pascal : String) (entries : List (Value × Value)) (s : String) : Prop :=
  effective camel pascal entries = some (.text s) ∧ s ≠ ""

/-- An item, or the mapping that it mentions, describes an image of the bundle. -/
inductive DescribesImage : Value → ImageCopy → Prop where
  | mapping {item : Value} {entries : List (Value × Value)} {image : ImageCopy}
    (held : item.opened = .map entries)
    (source : HoldsText "sourceTarFilePath" "SourceTarFilePath" entries image.source)
    (address : HoldsText "relativeImagePath" "RelativeImagePath" entries image.address) :
    DescribesImage item image

/-- The value of a field, if there is one, describes the images of the bundle. -/
inductive DescribesImages : Option Value → List ImageCopy → Prop where
  | absent : DescribesImages none []
  | null : DescribesImages (some .null) []
  | list {items : List Value} {images : List ImageCopy}
    (each : List.Forall₂ DescribesImage items images) : DescribesImages (some (.list items)) images

/-- The value of a field, if there is one, describes the metadata image. -/
inductive DescribesMetadata : Option Value → Option MetadataImage → Prop where
  | mapping {entries : List (Value × Value)} {image : MetadataImage}
    (source : HoldsText "sourceFilePath" "SourceFilePath" entries image.source)
    (address : HoldsText "relativeImagePathWithTag" "RelativeImagePathWithTag" entries
      image.address) :
    DescribesMetadata (some (.map entries)) (some image)

/-- A document describes a manifest. -/
inductive Describes : Value → Manifest → Prop where
  | mapping {entries : List (Value × Value)} {m : Manifest}
    (inventory : HoldsText "relativeInventoryImagePathWithTag" "RelativeInventoryImagePathWithTag"
      entries m.inventoryAddress)
    (metadata : DescribesMetadata
      (effective "inventoryMetadataImage" "InventoryMetadataImage" entries) m.metadata)
    (images : DescribesImages (effective "imagesToCopy" "ImagesToCopy" entries) m.images) :
    Describes (.map entries) m

/-! ## Values of a wrong kind -/

/-- A value of a wrong kind. -/
inductive Misfit where
  /-- Its error shows the value. -/
  | shown (v : Value)
  /-- Its error names the kind of the value only. -/
  | named

/-- A reading ends with `a` if there is no misfit, and at the first one otherwise: with an error of
manifests, or with a fault if the error would have to show an overlong integer. -/
inductive Ends {α : Type} (a : α) : List Misfit → Except Failure α → Prop where
  | fits : Ends a [] (.ok a)
  | shown {v : Value} {rest : List Misfit} (h : ¬v.IsOverlong) (e : ManifestError) :
    Ends a (.shown v :: rest) (.error (.manifest e))
  | overlong {v : Value} {rest : List Misfit} (h : v.IsOverlong) :
    Ends a (.shown v :: rest) (.error (.fault .overlongNumber))
  | named {rest : List Misfit} (e : ManifestError) :
    Ends a (.named :: rest) (.error (.manifest e))

section Ends

variable {α β : Type} {a : α} {b : β} {ms ns : List Misfit} {x : Except Failure α}

/-- Two readings one after the other. -/
theorem Ends.bind {f : α → Except Failure β} (hx : Ends a ms x) (hf : Ends b ns (f a)) :
    Ends b (ms ++ ns) (x >>= f) := by
  cases hx with
  | fits => exact hf
  | shown h e => exact .shown h e
  | overlong h => exact .overlong h
  | named e => exact .named e

/-- A reading whose result is used. -/
theorem Ends.use {f : α → Except Failure β} (hx : Ends a ms x) (hf : f a = .ok b) :
    Ends b ms (x >>= f) := by
  have hend : Ends b [] (f a) := by
    rw [hf]
    exact .fits
  simpa using hx.bind hend

theorem Ends.eq_ok_iff (h : Ends a ms x) {a' : α} : x = .ok a' ↔ ms = [] ∧ a = a' := by
  cases h <;> simp

theorem Ends.eq_overlong {v : Value} {rest : List Misfit} (h : Ends a (.shown v :: rest) x)
    (hv : v.IsOverlong) : x = .error (.fault .overlongNumber) := by
  cases h with
  | shown h e => exact absurd hv h
  | overlong h => rfl

theorem Ends.refused (h : Ends a ms x) (hms : ms ≠ [])
    (hshown : ∀ v rest, ms = .shown v :: rest → ¬v.IsOverlong) :
    ∃ e, x = .error (.manifest e) := by
  cases h with
  | fits => exact absurd rfl hms
  | shown h e => exact ⟨e, rfl⟩
  | overlong h => exact absurd h (hshown _ _ rfl)
  | named e => exact ⟨e, rfl⟩

/-- The refusal of a value that its error shows. -/
theorem ends_shown {text : Option String} (h : text = none ↔ v.IsOverlong)
    (e : String → ManifestError) :
    Ends a [.shown v] (do refuse (e (← Manifest.shown text))) := by
  cases text with
  | none => exact .overlong (h.1 rfl)
  | some s => exact .shown (fun hv => nomatch h.2 hv) (e s)

end Ends

/-! ## The first pass -/

/-- The text that a value stands for as a field. -/
def textIn : Value → String
  | .text s => s
  | _ => ""

/-- The misfits of a value as a field with a text. -/
def textMisfits : Value → List Misfit
  | .null | .text _ => []
  | v => [.shown v]

theorem ends_textField (key : String) (entries : List (Value × Value)) :
    Ends (textIn (fieldOrNull key entries)) (textMisfits (fieldOrNull key entries))
      (textField key entries) := by
  unfold textField
  cases fieldOrNull key entries with
  | null => exact .fits
  | text s => exact .fits
  | _ => exact ends_shown (Value.literal?_eq_none_iff _) _

/-- The image that an item stands for. -/
def imageIn (item : Value) : ImageCopy :=
  match item.opened with
  | .map entries =>
    ⟨textIn (fieldOrNull imageSourceField entries), textIn (fieldOrNull imageAddressField entries)⟩
  | _ => ⟨"", ""⟩

/-- The misfits of an item of the list of images. -/
def imageMisfits (item : Value) : List Misfit :=
  match item.opened with
  | .map entries =>
    textMisfits (fieldOrNull imageSourceField entries)
      ++ textMisfits (fieldOrNull imageAddressField entries)
  | v => [.shown v]

theorem ends_imageOf (item : Value) :
    Ends (imageIn item) (imageMisfits item) (imageOf item) := by
  unfold imageIn imageMisfits imageOf
  cases item.opened with
  | map entries => exact (ends_textField _ _).bind ((ends_textField _ _).use rfl)
  | _ => exact ends_shown (Value.text?_eq_none_iff _) _

theorem ends_mapM_imageOf (items : List Value) :
    Ends (items.map imageIn) (items.flatMap imageMisfits) (items.mapM imageOf) := by
  induction items with
  | nil => exact .fits
  | cons v items ih =>
    rw [List.mapM_cons]
    exact (ends_imageOf v).bind (ih.use rfl)

/-- The images that a value stands for. -/
def imagesIn : Value → List ImageCopy
  | .list items => items.map imageIn
  | _ => []

/-- The misfits of a value as the list of images. -/
def imagesMisfits : Value → List Misfit
  | .null => []
  | .list items => items.flatMap imageMisfits
  | _ => [.named]

theorem ends_imagesOf (v : Value) : Ends (imagesIn v) (imagesMisfits v) (imagesOf v) := by
  cases v with
  | null => exact .fits
  | list items => exact ends_mapM_imageOf items
  | _ => exact .named _

/-- The metadata image that a value stands for. -/
def metadataIn : Value → Option MetadataImage
  | .map entries =>
    some ⟨textIn (fieldOrNull metadataSourceField entries),
      textIn (fieldOrNull metadataAddressField entries)⟩
  | _ => none

/-- The misfits of a value as the metadata image. -/
def metadataMisfits : Value → List Misfit
  | .null => []
  | .map entries =>
    textMisfits (fieldOrNull metadataSourceField entries)
      ++ textMisfits (fieldOrNull metadataAddressField entries)
  | v => [.shown v]

theorem ends_metadataOf (v : Value) : Ends (metadataIn v) (metadataMisfits v) (metadataOf v) := by
  cases v with
  | null => exact .fits
  | map entries => exact (ends_textField _ _).bind ((ends_textField _ _).use rfl)
  | _ => exact ends_shown (Value.text?_eq_none_iff _) _

/-- The manifest that the entries of a mapping stand for. -/
def manifestIn (entries : List (Value × Value)) : Manifest where
  inventoryAddress := textIn (fieldOrNull inventoryField entries)
  metadata := metadataIn (fieldOrNull metadataField entries)
  images := imagesIn (fieldOrNull imagesField entries)

/-- The misfits of the entries of a mapping, in the order in which they are read. -/
def misfits (entries : List (Value × Value)) : List Misfit :=
  imagesMisfits (fieldOrNull imagesField entries)
    ++ (metadataMisfits (fieldOrNull metadataField entries)
      ++ textMisfits (fieldOrNull inventoryField entries))

/-- **The first pass** ends at the first value of a wrong kind. -/
theorem ends_ofEntries (entries : List (Value × Value)) :
    Ends (manifestIn entries) (misfits entries) (ofEntries entries) :=
  (ends_imagesOf _).bind ((ends_metadataOf _).bind ((ends_textField _ _).use rfl))

/-! ## The second pass -/

/-- Nothing is missing in a manifest. -/
structure IsComplete (m : Manifest) : Prop where
  inventory : m.inventoryAddress ≠ ""
  metadata : ∃ image, m.metadata = some image ∧ image.source ≠ "" ∧ image.address ≠ ""
  images : ∀ image ∈ m.images, image.source ≠ "" ∧ image.address ≠ ""

theorem checkImage_eq_ok_iff {image : ImageCopy} :
    checkImage image = .ok () ↔ image.source ≠ "" ∧ image.address ≠ "" := by
  unfold checkImage
  split_ifs <;> simp_all

theorem checkMetadata_eq_ok_iff {image : MetadataImage} :
    checkMetadata image = .ok () ↔ image.source ≠ "" ∧ image.address ≠ "" := by
  unfold checkMetadata
  split_ifs <;> simp_all

/-- **The second pass** lets through the manifests in which nothing is missing. -/
theorem check_eq_ok_iff {m : Manifest} : (∃ image, m.check = .ok image) ↔ m.IsComplete := by
  unfold check
  cases hm : m.metadata with
  | none =>
    constructor
    · rintro ⟨image, h⟩
      cases h
    · rintro ⟨-, ⟨image, himage, -⟩, -⟩
      cases hm.symm.trans himage
  | some image =>
    constructor
    · rintro ⟨_, h⟩
      obtain ⟨⟨⟩, hmetadata, h⟩ := bind_eq_ok_iff.1 h
      by_cases hinventory : m.inventoryAddress.isEmpty = true
      · rw [if_pos hinventory] at h
        cases h
      · rw [if_neg hinventory] at h
        obtain ⟨⟨⟩, himages, -⟩ := bind_eq_ok_iff.1 h
        refine ⟨by simpa using hinventory, ⟨image, hm, checkMetadata_eq_ok_iff.1 hmetadata⟩, ?_⟩
        exact fun i hi => checkImage_eq_ok_iff.1 (forM_eq_ok_iff.1 himages i hi)
    · rintro ⟨hinventory, ⟨image', himage, hmetadata⟩, himages⟩
      obtain rfl := Option.some.inj (hm.symm.trans himage)
      refine ⟨image, bind_eq_ok_iff.2 ⟨(), checkMetadata_eq_ok_iff.2 hmetadata, ?_⟩⟩
      rw [if_neg (by simpa using hinventory)]
      refine bind_eq_ok_iff.2 ⟨(), forM_eq_ok_iff.2 fun i hi => ?_, rfl⟩
      exact checkImage_eq_ok_iff.2 (himages i hi)

/-! ## Both passes -/

theorem fieldOrNull_eq {camel pascal : String} (h : capitalized camel = pascal) :
    fieldOrNull camel entries = (effective camel pascal entries).getD .null := by
  rw [fieldOrNull, field?, effective, h, Option.orElse_eq_or]

theorem holdsText_iff {camel pascal : String} (h : capitalized camel = pascal) :
    HoldsText camel pascal entries s ↔
      textMisfits (fieldOrNull camel entries) = [] ∧ textIn (fieldOrNull camel entries) = s ∧
        s ≠ "" := by
  rw [HoldsText, fieldOrNull_eq h]
  rcases effective camel pascal entries with _ | _ | _ <;> simp [textIn, textMisfits]

/-- Two fields of a mapping that hold texts. -/
theorem holdsText_and_iff {camel pascal camel' pascal' : String} {t : String}
    (h : capitalized camel = pascal) (h' : capitalized camel' = pascal') :
    HoldsText camel pascal entries s ∧ HoldsText camel' pascal' entries t ↔
      textMisfits (fieldOrNull camel entries) ++ textMisfits (fieldOrNull camel' entries) = [] ∧
        (textIn (fieldOrNull camel entries) = s ∧ textIn (fieldOrNull camel' entries) = t) ∧
        s ≠ "" ∧ t ≠ "" := by
  rw [holdsText_iff h, holdsText_iff h', List.append_eq_nil_iff]
  tauto

theorem describesImage_iff_of_map {image : ImageCopy} (hv : v.opened = .map entries) :
    DescribesImage v image ↔
      HoldsText "sourceTarFilePath" "SourceTarFilePath" entries image.source ∧
        HoldsText "relativeImagePath" "RelativeImagePath" entries image.address := by
  constructor
  · rintro ⟨held, source, address⟩
    obtain rfl := Value.map.inj (hv.symm.trans held)
    exact ⟨source, address⟩
  · exact fun h => .mapping hv h.1 h.2

theorem describesImage_iff {image : ImageCopy} :
    DescribesImage v image ↔
      imageMisfits v = [] ∧ imageIn v = image ∧ image.source ≠ "" ∧ image.address ≠ "" := by
  obtain ⟨source, address⟩ := image
  unfold imageMisfits imageIn
  cases hv : v.opened with
  | map entries =>
    refine (describesImage_iff_of_map hv).trans ((holdsText_and_iff rfl rfl).trans ?_)
    rw [ImageCopy.mk.injEq]
    rfl
  | _ =>
    refine iff_of_false ?_ fun h => List.cons_ne_nil _ _ h.1
    rintro ⟨held, -, -⟩
    cases hv.symm.trans held

theorem describesMetadata_map_iff {image : MetadataImage} :
    DescribesMetadata (some (.map entries)) (some image) ↔
      HoldsText "sourceFilePath" "SourceFilePath" entries image.source ∧
        HoldsText "relativeImagePathWithTag" "RelativeImagePathWithTag" entries image.address :=
  ⟨fun | .mapping source address => ⟨source, address⟩, fun h => .mapping h.1 h.2⟩

theorem describesMetadata_iff {field : Option Value} {image : MetadataImage} :
    DescribesMetadata field (some image) ↔ metadataMisfits (field.getD .null) = [] ∧
      metadataIn (field.getD .null) = some image ∧ image.source ≠ "" ∧ image.address ≠ "" := by
  obtain ⟨source, address⟩ := image
  rcases field with _ | v
  · exact iff_of_false (by rintro ⟨⟩) fun h => Option.some_ne_none _ h.2.1.symm
  · cases v with
    | map entries =>
      refine describesMetadata_map_iff.trans ((holdsText_and_iff rfl rfl).trans ?_)
      rw [Option.getD_some, metadataIn, Option.some.injEq, MetadataImage.mk.injEq]
      rfl
    | null => exact iff_of_false (by rintro ⟨⟩) fun h => Option.some_ne_none _ h.2.1.symm
    | _ => exact iff_of_false (by rintro ⟨⟩) fun h => List.cons_ne_nil _ _ h.1

theorem DescribesMetadata.exists_eq {field : Option Value} {metadata : Option MetadataImage}
    (h : DescribesMetadata field metadata) : ∃ image, metadata = some image := by
  cases h
  exact ⟨_, rfl⟩

theorem forall₂_describesImage_iff {items : List Value} {images : List ImageCopy} :
    List.Forall₂ DescribesImage items images ↔ items.flatMap imageMisfits = [] ∧
      items.map imageIn = images ∧ ∀ image ∈ images, image.source ≠ "" ∧ image.address ≠ "" := by
  constructor
  · intro h
    induction h with
    | nil => simp
    | cons hv _ ih =>
      obtain ⟨hfit, rfl, htexts⟩ := describesImage_iff.1 hv
      obtain ⟨hfits, rfl, hall⟩ := ih
      exact ⟨by simp [hfit, hfits], rfl, List.forall_mem_cons.2 ⟨htexts, hall⟩⟩
  · rintro ⟨hfits, rfl, hall⟩
    rw [List.forall₂_map_right_iff, List.forall₂_same]
    exact fun v hv => describesImage_iff.2
      ⟨List.flatMap_eq_nil_iff.1 hfits v hv, rfl, hall _ (List.mem_map_of_mem hv)⟩

theorem describesImages_iff {field : Option Value} {images : List ImageCopy} :
    DescribesImages field images ↔ imagesMisfits (field.getD .null) = [] ∧
      imagesIn (field.getD .null) = images ∧
      ∀ image ∈ images, image.source ≠ "" ∧ image.address ≠ "" := by
  rcases field with _ | v
  · constructor
    · rintro ⟨⟩
      exact ⟨rfl, rfl, nofun⟩
    · rintro ⟨-, rfl, -⟩
      exact .absent
  · cases v with
    | null =>
      constructor
      · rintro ⟨⟩
        exact ⟨rfl, rfl, nofun⟩
      · rintro ⟨-, rfl, -⟩
        exact .null
    | list items =>
      exact Iff.trans ⟨fun | .list h => h, .list⟩ forall₂_describesImage_iff
    | _ => exact iff_of_false (by rintro ⟨⟩) fun h => List.cons_ne_nil _ _ h.1

/-- **The well-formed mappings** are those without misfits in which nothing is missing. -/
theorem describes_map_iff {m : Manifest} :
    Describes (.map entries) m ↔ misfits entries = [] ∧ manifestIn entries = m ∧ m.IsComplete := by
  have hmetadata : fieldOrNull metadataField entries =
    (effective "inventoryMetadataImage" "InventoryMetadataImage" entries).getD .null :=
    fieldOrNull_eq rfl
  have himages : fieldOrNull imagesField entries =
    (effective "imagesToCopy" "ImagesToCopy" entries).getD .null := fieldOrNull_eq rfl
  rw [misfits, manifestIn, hmetadata, himages, List.append_eq_nil_iff, List.append_eq_nil_iff]
  -- Each of the three fields fits and is complete by itself.
  constructor
  · rintro ⟨inventory, metadata, images⟩
    obtain ⟨hfit, htext, hne⟩ := (holdsText_iff rfl).1 inventory
    obtain ⟨himagesfit, himagesin, hall⟩ := describesImages_iff.1 images
    obtain ⟨inventoryAddress, metadataImage, images⟩ := m
    obtain ⟨image, rfl⟩ := metadata.exists_eq
    obtain ⟨hmetadatafit, hmetadatain, hmetadatane⟩ := describesMetadata_iff.1 metadata
    refine ⟨⟨himagesfit, hmetadatafit, hfit⟩, ?_, hne, ⟨image, rfl, hmetadatane⟩, hall⟩
    rw [Manifest.mk.injEq]
    exact ⟨htext, hmetadatain, himagesin⟩
  · rintro ⟨⟨himagesfit, hmetadatafit, hfit⟩, rfl, hne, ⟨image, himage, hmetadatane⟩, hall⟩
    refine .mapping ((holdsText_iff rfl).2 ⟨hfit, rfl, hne⟩) ?_
      (describesImages_iff.2 ⟨himagesfit, rfl, hall⟩)
    exact himage ▸ describesMetadata_iff.2 ⟨hmetadatafit, himage, hmetadatane⟩

/-! ## Loading -/

/-- **A mapping is loaded** exactly if it is well-formed. -/
theorem load_eq_ok_iff {m : Manifest} : load entries = .ok m ↔ Describes (.map entries) m := by
  rw [describes_map_iff, load, bind_eq_ok_iff]
  constructor
  · rintro ⟨m', hm', h⟩
    obtain ⟨hfits, rfl⟩ := (ends_ofEntries entries).eq_ok_iff.1 hm'
    cases hcheck : (manifestIn entries).check with
    | error e =>
      rw [hcheck] at h
      cases h
    | ok image =>
      rw [hcheck] at h
      obtain rfl := Except.ok.inj h
      exact ⟨hfits, rfl, check_eq_ok_iff.1 ⟨image, hcheck⟩⟩
  · rintro ⟨hfits, rfl, hcomplete⟩
    obtain ⟨image, hcheck⟩ := check_eq_ok_iff.2 hcomplete
    refine ⟨manifestIn entries, (ends_ofEntries entries).eq_ok_iff.2 ⟨hfits, rfl⟩, ?_⟩
    rw [hcheck]
    rfl

/-- The first misfit of a document is to be shown in an error, and has no text. -/
def IsUnshowable : Value → Prop
  | .map entries => ∃ v rest, misfits entries = .shown v :: rest ∧ v.IsOverlong
  | _ => False

theorem load_of_isUnshowable (h : IsUnshowable (.map entries)) :
    load entries = .error (.fault .overlongNumber) := by
  obtain ⟨v, rest, hfirst, hv⟩ := h
  have hread := (hfirst ▸ ends_ofEntries entries).eq_overlong hv
  exact bind_eq_error_iff.2 (.inl hread)

/-- **A mapping that is not well-formed** is refused, unless its first misfit cannot be shown. -/
theorem load_refused (h : ¬IsUnshowable (.map entries)) (hm : ¬∃ m, Describes (.map entries) m) :
    ∃ e, load entries = .error (.manifest e) := by
  by_cases hfits : misfits entries = []
  · have hread := (ends_ofEntries entries).eq_ok_iff.2 ⟨hfits, rfl⟩
    cases hcheck : (manifestIn entries).check with
    | error e =>
      refine ⟨e, bind_eq_error_iff.2 (.inr ⟨_, hread, ?_⟩)⟩
      rw [hcheck]
      rfl
    | ok image =>
      exact absurd ⟨_, describes_map_iff.2 ⟨hfits, rfl, check_eq_ok_iff.1 ⟨image, hcheck⟩⟩⟩ hm
  · obtain ⟨e, hread⟩ := (ends_ofEntries entries).refused hfits
      fun v rest hfirst hv => h ⟨v, rest, hfirst, hv⟩
    exact ⟨e, bind_eq_error_iff.2 (.inl hread)⟩

/-- What an empty document comes to. -/
theorem load_empty : ∃ e, load [] = .error (.manifest e) := by
  refine load_refused ?_ ?_
  · rintro ⟨v, rest, h, -⟩
    cases h
  · rintro ⟨m, ⟨h, -⟩, -, -⟩
    cases h

/-- **The document in a file** is loaded as the manifest that it describes, and refused with an
error of manifests if it describes none, unless its first misfit cannot be shown. -/
theorem ofFile_eq_ok_iff_describes {t : FileTree} {p : Path} (h : readDocument t p = .ok v) :
    (∀ m, ofFile t p = .ok m ↔ Describes v m) ∧
      (IsUnshowable v → ofFile t p = .error (.fault .overlongNumber)) ∧
      (¬IsUnshowable v → (¬∃ m, Describes v m) → ∃ e, ofFile t p = .error (.manifest e)) := by
  unfold ofFile
  rw [h]
  cases v with
  | null =>
    obtain ⟨e, he⟩ := load_empty
    dsimp only
    rw [he]
    refine ⟨fun m => iff_of_false ?_ ?_, ?_, fun _ _ => ⟨_, rfl⟩⟩ <;> rintro ⟨⟩
  | map entries =>
    dsimp only
    refine ⟨fun m => ?_, fun hv => ?_, fun hv hm => ?_⟩
    · rw [← load_eq_ok_iff]
      refine ⟨eq_ok_of_mapError, fun hm => ?_⟩
      rw [hm]
      rfl
    · rw [load_of_isUnshowable hv]
      rfl
    · obtain ⟨e, he⟩ := load_refused hv hm
      rw [he]
      exact ⟨_, rfl⟩
  | _ => refine ⟨fun m => iff_of_false ?_ ?_, ?_, fun _ _ => ⟨_, rfl⟩⟩ <;> rintro ⟨⟩

/-- A manifest comes from a document. -/
theorem exists_readDocument {t : FileTree} {p : Path} {m : Manifest} (h : ofFile t p = .ok m) :
    ∃ v, readDocument t p = .ok v := by
  unfold ofFile at h
  cases hv : readDocument t p with
  | error e =>
    rw [hv] at h
    cases e <;> cases h
  | ok v => exact ⟨v, rfl⟩

/-- A field may have either spelling, and there may be no images. -/
theorem ofFile_eq_ok_iff_describes_spellings :
    let text := "\x7brelativeInventoryImagePathWithTag: i, imagesToCopy: null, " ++
      "InventoryMetadataImage: \x7bsourceFilePath: s, RelativeImagePathWithTag: m\x7d\x7d"
    let t : FileTree := ⟨[], [(["m.yaml"], .file 0 (.text text))]⟩
    ∃ v, readDocument t "m.yaml" = .ok v ∧ Describes v ⟨"i", some ⟨"s", "m"⟩, []⟩ := by
  intro text t
  have hfile : ofFile t "m.yaml" = .ok ⟨"i", some ⟨"s", "m"⟩, []⟩ := by decide +kernel
  obtain ⟨v, hv⟩ := exists_readDocument hfile
  exact ⟨v, hv, ((ofFile_eq_ok_iff_describes hv).1 _).1 hfile⟩

/-- A mapping that describes no manifest and is not refused as such: its only field holds an integer
of 4301 digits, which no error can show. -/
theorem load_overlong :
    let entries : List (Value × Value) :=
      [(.text "relativeInventoryImagePathWithTag", .int (Decimal.tenTo 4300))]
    (¬∃ m, Describes (.map entries) m) ∧ load entries = .error (.fault .overlongNumber) := by
  intro entries
  constructor
  · rintro ⟨m, ⟨h, -⟩, -, -⟩
    cases h
  · have hlong : (Value.int (Decimal.tenTo 4300)).IsOverlong :=
      Value.isOverlong_int.2 (Nat.le_of_eq (Int.natAbs_natCast _).symm)
    exact load_of_isUnshowable ⟨_, _, rfl, hlong⟩

end PluginCatalog.Manifest
