import Mathlib.Data.List.Find
import PluginCatalog.Proofs.Manifest.WellFormed

/-!
# Spellings of fields

A field of a manifest may be spelled with a small or with a capital first letter. What is read does
not depend on the spelling, as long as the small one wins where both are there.

* `Manifest.unified` are the entries of a mapping that count for one of its fields, with the small
  spellings, and `Manifest.unifiedManifest` those of a manifest, its metadata image and its images.
* `Manifest.find?_unified`: at the small spelling of a field stands the entry that counted for it,
  so that by `Manifest.read_unified` the field is read as before.
* `Manifest.ofEntries_unifiedManifest`: the mapping of a manifest is read alike in both forms.
-/

namespace PluginCatalog

/-- Whether a key is the given text. -/
def Value.isText (s : String) : Value → Bool
  | .text t => t == s
  | _ => false

theorem Value.isText_iff {s : String} {key : Value} : key.isText s = true ↔ key = .text s := by
  cases key <;> simp [isText]

theorem Value.lookup?_eq (key : String) (entries : List (Value × Value)) :
    lookup? key entries = (entries.find? (·.1.isText key)).map (·.2.opened) := by
  unfold lookup?
  congr 2

namespace Manifest

variable {entries : List (Value × Value)} {fields : List (String × String)}
  {change : String → Value → Value} {v : Value}

/-! ## Unified spellings -/

/-- Whether an entry counts for a field with two spellings: the first one counts, and the second one
where the first one is not there. -/
def counts (entries : List (Value × Value)) (key : Value) (field : String × String) : Bool :=
  key.isText field.1 || (key.isText field.2 && (Value.lookup? field.1 entries).isNone)

/-- The entries that count for one of the fields, with its first spelling and changed values. -/
def unified (fields : List (String × String)) (change : String → Value → Value)
    (entries : List (Value × Value)) : List (Value × Value) :=
  entries.filterMap fun (key, v) =>
    (fields.find? (counts entries key)).map fun field => (.text field.1, change field.1 v)

/-- A mapping with unified spellings of the fields; any other value stays as it is. -/
def unifiedMapping (fields : List (String × String)) (v : Value) : Value :=
  match v.opened with
  | .map entries => .map (unified fields (fun _ w => w) entries)
  | _ => v

/-- The spellings of the fields of an image. -/
def imageSpellings : List (String × String) :=
  [("sourceTarFilePath", "SourceTarFilePath"), ("relativeImagePath", "RelativeImagePath")]

/-- The spellings of the fields of a metadata image. -/
def metadataSpellings : List (String × String) :=
  [("sourceFilePath", "SourceFilePath"), ("relativeImagePathWithTag", "RelativeImagePathWithTag")]

/-- The spellings of the fields of a manifest. -/
def manifestSpellings : List (String × String) :=
  [("relativeInventoryImagePathWithTag", "RelativeInventoryImagePathWithTag"),
    ("inventoryMetadataImage", "InventoryMetadataImage"), ("imagesToCopy", "ImagesToCopy")]

/-- The images with unified spellings; what is no list stays as it is. -/
def unifiedImages (v : Value) : Value :=
  match v.opened with
  | .list items => .list (items.map (unifiedMapping imageSpellings))
  | _ => v

/-- The value of a field of a manifest with unified spellings in it. -/
def unifiedValue (field : String) (v : Value) : Value :=
  if field = "imagesToCopy" then unifiedImages v
  else if field = "inventoryMetadataImage" then unifiedMapping metadataSpellings v
  else v

/-- The entries of a manifest with unified spellings, and so in its metadata image and images. -/
def unifiedManifest (entries : List (Value × Value)) : List (Value × Value) :=
  unified manifestSpellings unifiedValue entries

/-! ## Fields of unified entries -/

/-- The spellings of fields are all different, and the second ones have a capital first letter. -/
structure Separate (fields : List (String × String)) : Prop where
  small : ∀ p ∈ fields, ∀ q ∈ fields, p.1 = q.1 → p = q
  large : ∀ p ∈ fields, ∀ q ∈ fields, p.2 = q.2 → p = q
  apart : ∀ p ∈ fields, ∀ q ∈ fields, p.1 ≠ q.2
  capital : ∀ p ∈ fields, capitalized p.1 = p.2

theorem separate_imageSpellings : Separate imageSpellings :=
  ⟨by decide, by decide, by decide, by decide +kernel⟩

theorem separate_metadataSpellings : Separate metadataSpellings :=
  ⟨by decide, by decide, by decide, by decide +kernel⟩

theorem separate_manifestSpellings : Separate manifestSpellings :=
  ⟨by decide, by decide, by decide, by decide +kernel⟩

theorem counts_iff {key : Value} {field : String × String} :
    counts entries key field = true ↔ key = .text field.1 ∨
      key = .text field.2 ∧ Value.lookup? field.1 entries = none := by
  simp [counts, Value.isText_iff]

/-- The entry that counts for a field is the first one with the first spelling, or else the first
one with the second spelling. -/
theorem find?_counts (entries : List (Value × Value)) (field : String × String) :
    entries.find? (fun e => counts entries e.1 field) =
      (entries.find? (·.1.isText field.1)).or (entries.find? (·.1.isText field.2)) := by
  have hlookup := Value.lookup?_eq field.1 entries
  cases hs : entries.find? (·.1.isText field.1) with
  | some e =>
    rw [hs] at hlookup
    rw [Option.some_or, ← hs]
    refine List.find?_congr fun e _ => ?_
    simp [counts, hlookup]
  | none =>
    rw [hs] at hlookup
    rw [Option.none_or]
    refine List.find?_congr fun e he => ?_
    simp [counts, hlookup, List.find?_eq_none.1 hs e he]

/-- The keys of unified entries are first spellings of the fields. -/
theorem key_unified {e : Value × Value} (he : e ∈ unified fields change entries) :
    ∃ field ∈ fields, e.1 = .text field.1 := by
  obtain ⟨e', -, he⟩ := List.mem_filterMap.1 he
  obtain ⟨field, hfield, rfl⟩ := Option.map_eq_some_iff.1 he
  exact ⟨field, List.mem_of_find?_eq_some hfield, rfl⟩

section Fields

variable (h : Separate fields) {field : String × String} (hfield : field ∈ fields)

include h hfield

/-- An entry counts for one field only. -/
theorem eq_of_counts {key : Value} {other : String × String} (hother : other ∈ fields)
    (hkey : counts entries key field = true) (hkey' : counts entries key other = true) :
    field = other := by
  -- One key is a spelling of both fields, and no small spelling is a capital one.
  rcases counts_iff.1 hkey with rfl | ⟨rfl, -⟩ <;> rcases counts_iff.1 hkey' with hs | ⟨hs, -⟩
  · exact h.small field hfield other hother (Value.text.inj hs)
  · exact absurd (Value.text.inj hs) (h.apart field hfield other hother)
  · exact absurd (Value.text.inj hs).symm (h.apart other hother field hfield)
  · exact h.large field hfield other hother (Value.text.inj hs)

theorem find?_counts_fields {key : Value} (hkey : counts entries key field = true) :
    fields.find? (counts entries key) = some field := by
  obtain ⟨other, hother⟩ := Option.isSome_iff_exists.1
    (List.find?_isSome.2 ⟨field, hfield, hkey⟩)
  rw [hother, eq_of_counts h hfield (List.mem_of_find?_eq_some hother) hkey
    (List.find?_some hother)]

/-- An entry gets the first spelling of a field exactly if it counts for the field. -/
theorem isText_unified (e : Value × Value) :
    (((fields.find? (counts entries e.1)).map fun other =>
      (Value.text other.1, change other.1 e.2)).any (·.1.isText field.1)) =
        counts entries e.1 field := by
  rw [Bool.eq_iff_iff, Option.any_eq_true]
  constructor
  · rintro ⟨e', he', hsmall⟩
    obtain ⟨other, hother, rfl⟩ := Option.map_eq_some_iff.1 he'
    rw [← h.small other (List.mem_of_find?_eq_some hother) field hfield
      (Value.text.inj (Value.isText_iff.1 hsmall))]
    exact List.find?_some hother
  · intro hcounts
    rw [find?_counts_fields h hfield hcounts]
    exact ⟨_, rfl, Value.isText_iff.2 rfl⟩

/-- What stands at the first spelling of a field in unified entries. -/
theorem find?_unified :
    (unified fields change entries).find? (·.1.isText field.1) =
      ((entries.find? (·.1.isText field.1)).or (entries.find? (·.1.isText field.2))).map
        fun e => (.text field.1, change field.1 e.2) := by
  rw [unified, List.find?_filterMap, ← find?_counts]
  simp only [isText_unified h hfield]
  cases he : entries.find? (fun e => counts entries e.1 field) with
  | none => rfl
  | some e =>
    have hcounts : counts entries e.1 field = true :=
      List.find?_some (p := fun e : Value × Value => counts entries e.1 field) he
    rw [Option.bind_some, find?_counts_fields h hfield hcounts]
    rfl

/-- The second spelling of a field does not stand in unified entries. -/
theorem find?_unified_capital :
    (unified fields change entries).find? (·.1.isText field.2) = none := by
  rw [List.find?_eq_none]
  intro e he hcapital
  obtain ⟨other, hother, hkey⟩ := key_unified he
  exact h.apart other hother field hfield
    (Value.text.inj (hkey.symm.trans (Value.isText_iff.1 hcapital)))

/-- **A field of unified entries** is read as it was, if its changed value is. -/
theorem read_unified {α : Type} (read : Value → α)
    (hread : ∀ v, read (change field.1 v).opened = read v.opened) :
    read (fieldOrNull field.1 (unified fields change entries)) =
      read (fieldOrNull field.1 entries) := by
  simp only [fieldOrNull, field?, h.capital field hfield, Value.lookup?_eq,
    find?_unified h hfield, find?_unified_capital h hfield, Option.orElse_eq_or]
  cases entries.find? (·.1.isText field.1) with
  | some e => exact hread e.2
  | none =>
    cases entries.find? (·.1.isText field.2) with
    | some e => exact hread e.2
    | none => rfl

end Fields

/-! ## Reading unified entries -/

/-- A text is read from unified entries as before. -/
theorem textField_unified (h : Separate fields) {field : String × String} (hfield : field ∈ fields)
    (hchange : ∀ v, change field.1 v = v) :
    textField field.1 (unified fields change entries) = textField field.1 entries := by
  have hvalue : fieldOrNull field.1 (unified fields change entries) =
      fieldOrNull field.1 entries :=
    read_unified h hfield id fun v => congrArg Value.opened (hchange v)
  rw [textField, textField, hvalue]

/-- A value that is no mapping stays as it is. -/
theorem opened_unifiedMapping (v : Value) : (unifiedMapping fields v).opened =
    match v.opened with
    | .map entries => .map (unified fields (fun _ w => w) entries)
    | w => w := by
  unfold unifiedMapping
  cases hv : v.opened <;> first | rfl | exact hv

/-- An image with unified spellings is read as the image. -/
theorem imageOf_unifiedMapping (item : Value) :
    imageOf (unifiedMapping imageSpellings item) = imageOf item := by
  rw [imageOf, imageOf, opened_unifiedMapping]
  cases item.opened with
  | map entries =>
    have hsource : textField imageSourceField (unified imageSpellings (fun _ w => w) entries) =
        textField imageSourceField entries :=
      textField_unified separate_imageSpellings (.head _) fun _ => rfl
    have haddress : textField imageAddressField (unified imageSpellings (fun _ w => w) entries) =
        textField imageAddressField entries :=
      textField_unified separate_imageSpellings (.tail _ (.head _)) fun _ => rfl
    dsimp only
    rw [hsource, haddress]
  | _ => rfl

theorem imagesOf_unifiedImages (v : Value) :
    imagesOf (unifiedImages v).opened = imagesOf v.opened := by
  unfold unifiedImages
  cases hv : v.opened with
  | list items =>
    change (items.map (unifiedMapping imageSpellings)).mapM imageOf = items.mapM imageOf
    rw [List.mapM_map]
    exact congrArg (items.mapM ·) (funext imageOf_unifiedMapping)
  | _ => exact congrArg imagesOf hv

theorem metadataOf_unifiedMapping (v : Value) :
    metadataOf (unifiedMapping metadataSpellings v).opened = metadataOf v.opened := by
  rw [opened_unifiedMapping]
  cases v.opened with
  | map entries =>
    have hsource :
        textField metadataSourceField (unified metadataSpellings (fun _ w => w) entries) =
          textField metadataSourceField entries :=
      textField_unified separate_metadataSpellings (.head _) fun _ => rfl
    have haddress :
        textField metadataAddressField (unified metadataSpellings (fun _ w => w) entries) =
          textField metadataAddressField entries :=
      textField_unified separate_metadataSpellings (.tail _ (.head _)) fun _ => rfl
    dsimp only [metadataOf]
    rw [hsource, haddress]
  | _ => rfl

/-- The manifest of unified entries is the one of the entries. -/
theorem ofEntries_unified (entries : List (Value × Value)) :
    ofEntries (unifiedManifest entries) = ofEntries entries := by
  have himages : imagesOf (fieldOrNull imagesField (unifiedManifest entries)) =
      imagesOf (fieldOrNull imagesField entries) :=
    read_unified separate_manifestSpellings (.tail _ (.tail _ (.head _))) imagesOf
      imagesOf_unifiedImages
  have hmetadata : metadataOf (fieldOrNull metadataField (unifiedManifest entries)) =
      metadataOf (fieldOrNull metadataField entries) :=
    read_unified separate_manifestSpellings (.tail _ (.head _)) metadataOf
      metadataOf_unifiedMapping
  have hinventory : textField inventoryField (unifiedManifest entries) =
      textField inventoryField entries :=
    textField_unified separate_manifestSpellings (.head _) fun _ => rfl
  rw [ofEntries, ofEntries, himages, hmetadata, hinventory]

/-- **The spelling of fields does not matter**: a mapping and the one with unified spellings are
read as the same manifest and loaded alike, or refused with the same error of manifests, unless the
first misfit cannot be shown in an error; then both end with that fault. -/
theorem ofEntries_unifiedManifest (entries : List (Value × Value)) :
    ofEntries (unifiedManifest entries) = ofEntries entries ∧
      load (unifiedManifest entries) = load entries ∧
      (¬IsUnshowable (.map entries) →
        (∃ m, ofEntries entries = .ok m) ∨ ∃ e, ofEntries entries = .error (.manifest e)) ∧
      (IsUnshowable (.map entries) → ofEntries entries = .error (.fault .overlongNumber)) := by
  have hsame := ofEntries_unified entries
  refine ⟨hsame, ?_, fun hshow => ?_, ?_⟩
  · rw [load, load, hsame]
  · by_cases hfits : misfits entries = []
    · exact .inl ⟨_, (ends_ofEntries entries).eq_ok_iff.2 ⟨hfits, rfl⟩⟩
    · exact .inr ((ends_ofEntries entries).refused hfits
        fun v rest hfirst hv => hshow ⟨v, rest, hfirst, hv⟩)
  · rintro ⟨v, rest, hfirst, hv⟩
    exact (hfirst ▸ ends_ofEntries entries).eq_overlong hv

/-- Both spellings of a field, the small one with null, and a key of no field. -/
theorem ofEntries_unifiedManifest_mixed :
    let image : Value := .map [(.text "SourceTarFilePath", .text "a"), (.int 1, .null),
      (.text "relativeImagePath", .null), (.text "RelativeImagePath", .text "b")]
    let entries : List (Value × Value) :=
      [(.text "RelativeInventoryImagePathWithTag", .text "i"), (.text "x", .bool true),
        (.text "ImagesToCopy", .list [image])]
    ¬IsUnshowable (.map entries) ∧
      ofEntries (unifiedManifest entries) = .ok ⟨"i", none, [⟨"a", ""⟩]⟩ ∧
      ((∃ m, ofEntries entries = .ok m) ∨ ∃ e, ofEntries entries = .error (.manifest e)) := by
  intro image entries
  have hread : ofEntries entries = .ok ⟨"i", none, [⟨"a", ""⟩]⟩ := by decide +kernel
  have hshow : ¬IsUnshowable (.map entries) := by
    rintro ⟨v, rest, hfirst, -⟩
    exact absurd (hfirst.symm.trans ((ends_ofEntries entries).eq_ok_iff.1 hread).1) nofun
  obtain ⟨hsame, -, hends, -⟩ := ofEntries_unifiedManifest entries
  exact ⟨hshow, hsame.trans hread, hends hshow⟩

/-- A mapping that is neither read as a manifest nor refused with an error of manifests, in either
spelling: its field holds an integer that no error can show. -/
theorem ofEntries_unifiedManifest_overlong :
    let entries : List (Value × Value) :=
      [(.text "RelativeInventoryImagePathWithTag", .int (Decimal.tenTo 4300))]
    ofEntries entries = .error (.fault .overlongNumber) ∧
      ofEntries (unifiedManifest entries) = .error (.fault .overlongNumber) := by
  intro entries
  have hlong : (Value.int (Decimal.tenTo 4300)).IsOverlong :=
    Value.isOverlong_int.2 (Nat.le_of_eq (Int.natAbs_natCast _).symm)
  have hfirst : misfits entries = [.shown (.int (Decimal.tenTo 4300))] := rfl
  have hread := (hfirst ▸ ends_ofEntries entries).eq_overlong hlong
  exact ⟨hread, (ofEntries_unified entries).trans hread⟩

end Manifest

end PluginCatalog
