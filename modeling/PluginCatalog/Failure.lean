import PluginCatalog.Fault
import PluginCatalog.Path
import PluginCatalog.Store.Table
import PluginCatalog.Version.Reading

/-!
# Failures

Every part of the catalogue has its own causes of failure, each worded in one place.

* `StoreError`, `DiscoveryError`, `ManifestError`, `ConfigError`, `ArchiveError`, `ImageError` and
  `UploadError` are the causes, each with its `message`.
* `Failure` is a cause of any part, or a fault that no part words.
-/

namespace PluginCatalog

/-! ## Stores -/

/-- Why a store cannot be used. -/
inductive StoreError where
  /-- There is no file at the path. -/
  | missing (path : Path)
  /-- The file is no store. -/
  | unusable (path : Path) (cause : TableFault)
  /-- The store has no table of the catalogue. -/
  | noTable (path : Path)
  | notCreated (path : Path) (cause : TableFault)
  | notRead (cause : TableFault)
  | notInserted (cause : TableFault)
  | notMerged (incoming present : Path) (cause : TableFault)
  deriving DecidableEq, Repr

/-- The wording of the error. -/
def StoreError.message : StoreError → String
  | missing path => s!"unable to setup DB at '{path.text}': file does not exist"
  | unusable path cause => s!"unable to setup DB at '{path.text}': {cause.message}"
  | noTable path =>
    s!"unable to setup DB at '{path.text}': table 'PluginBinaries' does not exist"
  | notCreated path cause => s!"unable to create DB schema at '{path.text}': {cause.message}"
  | notRead cause => s!"unable to read plugin inventory: {cause.message}"
  | notInserted cause => s!"unable to insert plugin rows: {cause.message}"
  | notMerged incoming present cause =>
    s!"unable to merge inventory metadata from '{incoming.text}' into '{present.text}': "
      ++ cause.message

/-! ## Documents -/

/-- Why recommendations cannot be read. -/
inductive DiscoveryError where
  | missing (path : Path)
  | invalidYaml (path : Path)
  /-- A plugin resource has no name. -/
  | nameless (path : Path)
  deriving DecidableEq, Repr

/-- The wording of the error. -/
def DiscoveryError.message : DiscoveryError → String
  | missing path => s!"Resource file not found: {path.text}"
  | invalidYaml path => s!"Invalid YAML in {path.text}"
  | nameless path => s!"CLIPlugin resource without a name in {path.text}"

/-- Why a manifest is refused. -/
inductive ManifestError where
  | missing (path : Path)
  | invalidYaml (path : Path)
  | notAMapping (path : Path)
  /-- The manifest in a file is refused. -/
  | invalid (path : Path) (cause : ManifestError)
  /-- A field that holds a text holds something else. -/
  | notText (field kind literal : String)
  /-- The field of the images is no list. -/
  | imagesNotAList (kind : String)
  /-- An image is no mapping. -/
  | invalidImage (text : String)
  /-- The metadata image is no mapping. -/
  | invalidMetadataImage (text : String)
  | noMetadataImage
  | noMetadataSource
  | noMetadataAddress
  | noInventoryAddress
  | noImageSource
  /-- The image of this archive has no address. -/
  | noImageAddress (source : String)
  deriving DecidableEq, Repr

/-- The wording of the error. -/
def ManifestError.message : ManifestError → String
  | missing path => s!"Manifest file not found: {path.text}"
  | invalidYaml path => s!"Invalid YAML in {path.text}"
  | notAMapping path => s!"Invalid manifest in {path.text}: expected a mapping"
  | invalid path cause => s!"Invalid manifest in {path.text}: {cause.message}"
  | notText field kind literal => s!"field '{field}' must be a string, got {kind}: {literal}"
  | imagesNotAList kind => s!"field 'imagesToCopy' must be a list, got {kind}"
  | invalidImage text => s!"Invalid image entry: {text}"
  | invalidMetadataImage text => s!"Invalid inventory metadata image entry: {text}"
  | noMetadataImage => "Manifest missing 'inventoryMetadataImage' field"
  | noMetadataSource => "Inventory metadata image missing 'sourceFilePath' field"
  | noMetadataAddress => "Inventory metadata image missing 'relativeImagePathWithTag' field"
  | noInventoryAddress => "Manifest missing 'relativeInventoryImagePathWithTag' field"
  | noImageSource => "Image entry missing 'sourceTarFilePath' field"
  | noImageAddress source => s!"Image '{source}' missing 'relativeImagePath' field"

/-- Why settings are refused. -/
inductive ConfigError where
  | missing (path : Path)
  | invalidYaml (path : Path)
  | notAMapping (path : Path)
  /-- A duration is no number. -/
  | notSeconds (name literal : String)
  /-- A duration is below zero. -/
  | negativeSeconds (name literal : String)
  deriving DecidableEq, Repr

/-- The wording of the error. -/
def ConfigError.message : ConfigError → String
  | missing path => s!"Config file not found: {path.text}"
  | invalidYaml path => s!"Invalid YAML in {path.text}"
  | notAMapping path => s!"Invalid config in {path.text}: expected a mapping"
  | notSeconds name literal => s!"'{name}' must be a number of seconds, got: {literal}"
  | negativeSeconds name literal => s!"'{name}' must not be negative, got: {literal}"

/-! ## Bundles -/

/-- Why an archive is not unpacked. -/
inductive ArchiveError where
  | missing (archive : Path)
  /-- A member would land outside. -/
  | unsafePath (name : String) (archive : Path)
  /-- A link would point outside. -/
  | unsafeLink (name target : String) (archive : Path)
  /-- The archive cannot be read, or a member cannot be written. -/
  | unreadable (archive : Path)
  deriving DecidableEq, Repr

/-- The wording of the error. -/
def ArchiveError.message : ArchiveError → String
  | missing archive => s!"Archive not found: {archive.text}"
  | unsafePath name archive => s!"Unsafe path '{name}' in archive {archive.text}"
  | unsafeLink name target archive =>
    s!"Unsafe link '{name}' -> '{target}' in archive {archive.text}"
  | unreadable archive => s!"Unable to extract {archive.text}"

/-- Why an image is not transferred. -/
inductive ImageError where
  | failed (message : String)
  /-- There is no such image. -/
  | absent (message : String)
  deriving DecidableEq, Repr

/-- The wording of the error. -/
def ImageError.message : ImageError → String
  | failed message | absent message => message

/-- Why a bundle is not published. -/
inductive UploadError where
  /-- The repository that an address is joined to is the empty text. -/
  | emptyDestination
  /-- Neither the caller nor the settings name a repository. -/
  | noDestination
  | notExtracted (cause : ArchiveError)
  | manifest (cause : ManifestError)
  /-- A file of the manifest is not in the bundle. -/
  | missingFile (path : String) (bundle : Path)
  /-- The image number `index` of `total` is not copied. -/
  | notCopied (index total : Nat) (address : String) (cause : ImageError)
  | notPushed (address : String) (cause : ImageError)
  | notPulled (address : String) (cause : ImageError)
  | notMerged (cause : StoreError)
  deriving DecidableEq, Repr

/-- The wording of the error. -/
def UploadError.message : UploadError → String
  | emptyDestination => "destination repository must not be empty"
  | noDestination => "no destination repository given"
  | notExtracted cause => s!"unable to extract provided file: {cause.message}"
  | manifest cause => s!"error while reading plugin migration manifest: {cause.message}"
  | missingFile path bundle =>
    s!"file '{path}' listed in the manifest is missing from '{bundle.text}'"
  | notCopied index total address cause =>
    s!"[{index}/{total}] error while uploading image '{address}': {cause.message}"
  | notPushed address cause => s!"error while uploading image '{address}': {cause.message}"
  | notPulled address cause => s!"error while downloading image '{address}': {cause.message}"
  | notMerged cause =>
    "error while merging the plugin inventory metadata database before uploading metadata image: "
      ++ cause.message

/-! ## All of them -/

/-- Why an operation of the catalogue fails. -/
inductive Failure where
  | version (cause : VersionError)
  | store (cause : StoreError)
  | discovery (cause : DiscoveryError)
  | manifest (cause : ManifestError)
  | config (cause : ConfigError)
  | archive (cause : ArchiveError)
  | image (cause : ImageError)
  | upload (cause : UploadError)
  /-- A fault that no part of the catalogue words. -/
  | fault (cause : Fault)
  deriving DecidableEq, Repr

/-- A failure of reading a version: an overlong number is a fault. -/
def Failure.ofVersion : VersionError → Failure
  | .overlong => .fault .overlongNumber
  | cause => .version cause

/-- The wording of a failure; a fault has none. -/
def Failure.wording : Failure → Except Fault String
  | version e => .ok e.message
  | store e => .ok e.message
  | discovery e => .ok e.message
  | manifest e => .ok e.message
  | config e => .ok e.message
  | archive e => .ok e.message
  | image e => .ok e.message
  | upload e => .ok e.message
  | fault cause => .error cause

end PluginCatalog
