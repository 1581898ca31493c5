import PluginCatalog.Address
import PluginCatalog.Archive.Extraction
import PluginCatalog.Image.Service
import PluginCatalog.Manifest

/-!
# Publishing bundles

A bundle is an archive with images, a manifest and a store. It is published to a repository in
steps; the first step that fails ends the run, and what was published before stays published.

* `Uploader.unpack` unpacks the archive and reads the manifest, `Uploader.checkFiles` looks for the
  files that it names.
* `Uploader.copyImages` publishes the images one after the other, with a pause between them.
* `Uploader.publishMetadata` merges what the repository has of the store into the store, and
  publishes the result.
* `Uploader.run` takes all steps, in a directory that is there for the run only, and gives the
  address of the published inventory; `Uploader.prepare` are those before the store.
-/

namespace PluginCatalog

/-- A bundle and where it is published. -/
structure Uploader where
  /-- The archive of the bundle. -/
  archive : Path
  /-- The directory for unpacked and fetched files. -/
  scratch : Path
  /-- The repository; the settings may give a value of any kind. -/
  destination : Value
  /-- The pause between images, in seconds. -/
  delay : Float
  /-- Waits for a number of seconds, or refuses to, as for a time too long for a clock. -/
  sleep : Float → Except Fault Unit := fun _ => .ok ()

namespace Uploader

variable {σ : Type}

/-! ## Places -/

/-- The directory of a bundle in its archive. -/
def bundleName : String := "plugin_bundle"

/-- The file of the manifest in a bundle. -/
def manifestName : String := "plugin_migration_manifest.yaml"

/-- The directory for the files of the published store. -/
def downloadName : String := "inventory-metadata"

/-- The unpacked bundle. -/
def bundle (u : Uploader) : Path := u.scratch / bundleName

/-- The directory into which the published store is fetched. -/
def downloads (u : Uploader) : Path := u.scratch / downloadName

/-- The address of a path below the repository. A repository that counts as false is none. -/
def address (u : Uploader) (relative : String) : Except Failure String :=
  match u.destination with
  | .text base =>
    match Address.join? base relative with
    | some address => .ok address
    | none => .error (.upload .emptyDestination)
  | .bytes (_ :: _) => .error (.fault .mixedKinds)
  | v => .error (if v.isTruthy then .fault .notText else .upload .emptyDestination)

/-! ## Steps -/

/-- The failure of the whole for a failure of unpacking. -/
def notUnpacked : Failure → Failure
  | .archive cause => .upload (.notExtracted cause)
  | failure => failure

/-- The failure of the whole for a failure of reading the manifest. -/
def manifestRefused : Failure → Failure
  | .manifest cause => .upload (.manifest cause)
  | failure => failure

/-- The failure of the whole for a failure of merging. -/
def mergeFailed : Failure → Failure
  | .store cause => .upload (.notMerged cause)
  | failure => failure

/-- Unpacks the archive and reads the manifest. -/
def unpack (u : Uploader) : Run σ Manifest := do
  Run.note .info s!"Extracting '{u.archive.text}' for processing..."
  ExceptT.adapt notUnpacked (extract u.archive u.scratch)
  let t ← Run.files
  Run.ofExcept ((Manifest.ofFile t (u.bundle / manifestName)).mapError manifestRefused)

/-- The files that a manifest names: those of the images, and then the store. -/
def sources (m : Manifest) (metadata : MetadataImage) : List String :=
  m.images.map (·.source) ++ [metadata.source]

/-- Refuses a manifest that names a file which is not in the bundle. -/
def checkFiles (u : Uploader) (m : Manifest) (metadata : MetadataImage) : Run σ Unit := do
  let t ← Run.files
  let isMissing (source : String) : Bool := !t.isFile (u.bundle / source)
  match (sources m metadata).find? isMissing with
  | some source => throw (.upload (.missingFile source u.archive))
  | none => return

/-- Waits before an image that is not the first one. -/
def pause (u : Uploader) (number : Nat) : Run σ Unit :=
  if number > 1 && u.delay > 0 then do
    Run.ofExcept ((u.sleep u.delay).mapError .fault)
    Run.record [.sleep u.delay]
  else return

/-- Publishes the image with a number among `total` of them. -/
def copyImage (u : Uploader) (s : ImageService σ) (total number : Nat) (image : ImageCopy) :
    Run σ Unit := do
  u.pause number
  let address ← Run.ofExcept (u.address image.address)
  Run.note .info s!"[{number}/{total}] uploading image '{address}'"
  match ← s.copyImage (u.bundle / image.source) address with
  | .error cause =>
    Run.note .error s!"[{number}/{total}] error while uploading image '{address}'"
    throw (.upload (.notCopied number total address cause))
  | .ok () => Run.note .info s!"[{number}/{total}] uploaded image '{address}'"

/-- Publishes images, of which the first has the given number among `total` of them. -/
def copyFrom (u : Uploader) (s : ImageService σ) (total : Nat) :
    Nat → List ImageCopy → Run σ Unit
  | _, [] => return
  | number, image :: rest => do
    u.copyImage s total number image
    u.copyFrom s total (number + 1) rest

/-- Publishes all images of a manifest. -/
def copyImages (u : Uploader) (s : ImageService σ) (m : Manifest) : Run σ Unit := do
  match u.destination.text? with
  | none => Run.fault .overlongNumber
  | some destination =>
    let total := m.images.length
    Run.note .info s!"Uploading {total} plugin image(s) to '{destination}'"
    u.copyFrom s total 1 m.images

/-- Fetches what the repository has of the store and merges it into the store of the bundle. -/
def mergePublished (u : Uploader) (s : ImageService σ) (address : String) (store : Path) :
    Run σ Unit := do
  let (t, made) := (← Run.files).ensureDirectory u.downloads
  Run.setFiles t
  Run.ofExcept (made.mapError fun cause => .fault (.file cause))
  match ← s.pullFiles address u.downloads with
  | .error (.absent _) =>
    Run.note .info (s!"Plugin inventory metadata image '{address}' is not present. "
      ++ "Skipping merging of the plugin inventory metadata")
  | .error cause => throw (.upload (.notPulled address cause))
  | .ok () =>
    Run.note .info (s!"Plugin inventory metadata image '{address}' is present. "
      ++ "Merging the plugin inventory metadata")
    let _ ← ExceptT.adapt mergeFailed (mergeStore store (u.downloads / store.name))

/-- Publishes the store and gives the address of the inventory. -/
def pushStore (u : Uploader) (s : ImageService σ) (m : Manifest) (address : String)
    (store : Path) : Run σ String := do
  Run.note .info s!"Uploading image '{address}'"
  match ← s.pushFiles address [store] with
  | .error cause => throw (.upload (.notPushed address cause))
  | .ok () =>
    let inventory ← Run.ofExcept (u.address m.inventoryAddress)
    Run.note .info s!"Successfully published all plugin images to '{inventory}'"
    return inventory

/-- Publishes the store of the bundle, merged with what the repository has, and gives the address of
the inventory. -/
def publishMetadata (u : Uploader) (s : ImageService σ) (m : Manifest)
    (metadata : MetadataImage) : Run σ String := do
  let store := u.bundle / metadata.source
  let address ← Run.ofExcept (u.address metadata.address)
  Run.note .info "Publishing plugin inventory metadata image..."
  u.mergePublished s address store
  u.pushStore s m address store

/-- Takes the steps before the store: gives the manifest and its metadata image. -/
def prepare (u : Uploader) (s : ImageService σ) : Run σ (Manifest × MetadataImage) := do
  let m ← u.unpack
  match m.check with
  | .error cause => throw (.upload (.manifest cause))
  | .ok metadata =>
    u.checkFiles m metadata
    u.copyImages s m
    return (m, metadata)

/-- Publishes the bundle, and gives the address of the published inventory. -/
def run (u : Uploader) (s : ImageService σ) : Run σ String :=
  Run.within u.scratch do
    let (m, metadata) ← u.prepare s
    u.publishMetadata s m metadata

end Uploader

end PluginCatalog
