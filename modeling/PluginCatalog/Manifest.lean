import PluginCatalog.DocumentFile
import PluginCatalog.Failure

/-!
# Manifests of bundles

A manifest says which images a bundle holds, where each of them is published, and where the
catalogue of the bundle is.

* `Manifest.ofEntries` reads the entries of a mapping. A field may be spelled with a small or a
  capital first letter; the small one wins, also where it holds null.
* `Manifest.check` refuses a manifest in which a text is missing or empty.
* `Manifest.load` does both, and `Manifest.ofFile` for the document in a file.
* `Manifest.toValue` is the mapping of a manifest.
-/

namespace PluginCatalog

/-- An archived image of a bundle, and the path of its address below the repository. -/
structure ImageCopy where
  source : String
  address : String
  deriving DecidableEq, Repr

/-- The store of a bundle, and the path of its address below the repository. -/
structure MetadataImage where
  source : String
  address : String
  deriving DecidableEq, Repr

/-- What a bundle publishes. -/
structure Manifest where
  inventoryAddress : String
  metadata : Option MetadataImage
  images : List ImageCopy
  deriving DecidableEq, Repr

namespace Manifest

/-! ## Fields -/

/-- The name of the field with the address of the inventory. -/
def inventoryField : String := "relativeInventoryImagePathWithTag"

/-- The name of the field with the metadata image. -/
def metadataField : String := "inventoryMetadataImage"

/-- The name of the field with the images. -/
def imagesField : String := "imagesToCopy"

/-- The name of the field with the archive of an image. -/
def imageSourceField : String := "sourceTarFilePath"

/-- The name of the field with the address of an image. -/
def imageAddressField : String := "relativeImagePath"

/-- The name of the field with the store. -/
def metadataSourceField : String := "sourceFilePath"

/-- The name of the field with the address of the metadata image. -/
def metadataAddressField : String := "relativeImagePathWithTag"

/-- A name with a capital first letter. -/
def capitalized (key : String) : String :=
  match key.toList with
  | [] => key
  | c :: rest => String.ofList (c.toUpper :: rest)

/-- The value of a field: that of the name as given if it is there, else that of the name with a
capital first letter. -/
def field? (key : String) (entries : List (Value × Value)) : Option Value :=
  (Value.lookup? key entries).orElse fun _ => Value.lookup? (capitalized key) entries

/-- The value of a field, null where it is not there. -/
def fieldOrNull (key : String) (entries : List (Value × Value)) : Value :=
  (field? key entries).getD .null

/-- A text in a message, which an integer with too many digits does not have. -/
def shown (text : Option String) : Except Failure String :=
  match text with
  | some s => .ok s
  | none => .error (.fault .overlongNumber)

/-- Ends the reading with an error. -/
def refuse {α : Type} (e : ManifestError) : Except Failure α := .error (.manifest e)

/-- The text of a field, empty where it is null or not there. -/
def textField (key : String) (entries : List (Value × Value)) : Except Failure String :=
  match fieldOrNull key entries with
  | .null => .ok ""
  | .text s => .ok s
  | v => do refuse (.notText key v.kind (← shown v.literal?))

/-! ## Reading -/

/-- The image of an item of the list of images. -/
def imageOf (item : Value) : Except Failure ImageCopy :=
  match item.opened with
  | .map entries => do
    let source ← textField imageSourceField entries
    let address ← textField imageAddressField entries
    return { source, address }
  | v => do refuse (.invalidImage (← shown v.text?))

/-- The images of the list of images. -/
def imagesOf : Value → Except Failure (List ImageCopy)
  | .null => .ok []
  | .list items => items.mapM imageOf
  | v => refuse (.imagesNotAList v.kind)

/-- The metadata image of its mapping. -/
def metadataOf : Value → Except Failure (Option MetadataImage)
  | .null => .ok none
  | .map entries => do
    let source ← textField metadataSourceField entries
    let address ← textField metadataAddressField entries
    return some { source, address }
  | v => do refuse (.invalidMetadataImage (← shown v.text?))

/-- The manifest of the entries of a mapping. -/
def ofEntries (entries : List (Value × Value)) : Except Failure Manifest := do
  let images ← imagesOf (fieldOrNull imagesField entries)
  let metadata ← metadataOf (fieldOrNull metadataField entries)
  let inventoryAddress ← textField inventoryField entries
  return { inventoryAddress, metadata, images }

/-! ## Checking -/

/-- Refuses an image without archive or address. -/
def checkImage (image : ImageCopy) : Except ManifestError Unit :=
  if image.source.isEmpty then .error .noImageSource
  else if image.address.isEmpty then .error (.noImageAddress image.source)
  else .ok ()

/-- Refuses a metadata image without store or address. -/
def checkMetadata (image : MetadataImage) : Except ManifestError Unit :=
  if image.source.isEmpty then .error .noMetadataSource
  else if image.address.isEmpty then .error .noMetadataAddress
  else .ok ()

/-- Refuses a manifest in which something is missing, and gives its metadata image. -/
def check (m : Manifest) : Except ManifestError MetadataImage := do
  match m.metadata with
  | none => throw .noMetadataImage
  | some metadata =>
    checkMetadata metadata
    if m.inventoryAddress.isEmpty then throw .noInventoryAddress
    m.images.forM checkImage
    return metadata

/-! ## Writing -/

/-- The entry of a field that holds a text. -/
def textEntry (key s : String) : Value × Value := (.text key, .text s)

/-- The mapping of an image. -/
def imageValue (image : ImageCopy) : Value :=
  .map [textEntry imageSourceField image.source, textEntry imageAddressField image.address]

/-- The mapping of a metadata image. -/
def metadataValue (image : MetadataImage) : Value :=
  .map [textEntry metadataSourceField image.source, textEntry metadataAddressField image.address]

/-- The entries of the mapping of a manifest. -/
def toEntries (m : Manifest) : List (Value × Value) :=
  [textEntry inventoryField m.inventoryAddress,
    (.text imagesField, .list (m.images.map imageValue))]
    ++ (m.metadata.map fun image => (Value.text metadataField, metadataValue image)).toList

/-- The mapping of a manifest. -/
def toValue (m : Manifest) : Value := .map m.toEntries

/-! ## Loading -/

/-- The manifest of the entries of a mapping, if nothing is missing in it. -/
def load (entries : List (Value × Value)) : Except Failure Manifest := do
  let m ← ofEntries entries
  match m.check with
  | .ok _ => return m
  | .error e => refuse e

/-- The manifest of the document in a file; an empty document is an empty mapping. -/
def ofFile (t : FileTree) (p : Path) : Except Failure Manifest :=
  match readDocument t p with
  | .error .missing => refuse (.missing p)
  | .error .malformed => refuse (.invalidYaml p)
  | .error (.fault cause) => .error (.fault cause)
  | .ok v =>
    let loaded (entries : List (Value × Value)) : Except Failure Manifest :=
      (load entries).mapError fun
        | .manifest e => .manifest (.invalid p e)
        | e => e
    match v with
    | .null => loaded []
    | .map entries => loaded entries
    | _ => refuse (.notAMapping p)

end Manifest

end PluginCatalog
