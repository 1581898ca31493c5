import PluginCatalog.Run
import PluginCatalog.Store.Opening

/-!
# Image services

An image service publishes archived images and files in a registry, and fetches the files of an
image. What it does is a function of what it is given, of the files and of its own state.

* `Reply` is the end of a call: the files and the state after it, what was said and done, and the
  outcome.
* `ImageService` is a service with its three calls.
* `ImageService.copyImage`, `pushFiles` and `pullFiles` make a call in a run: the call goes to the
  journal first. The outcome is an `ImageError`, or no error; any other failure ends the run.
-/

namespace PluginCatalog

/-- The end of a call of a service. -/
structure Reply (σ : Type) where
  files : FileTree
  /-- The state of the service after the call. -/
  services : σ
  activities : List Activity
  outcome : Except Failure Unit

/-- A service that transfers images. -/
structure ImageService (σ : Type) where
  /-- Publishes an archived image under an address. -/
  copy : Path → String → FileTree → σ → Reply σ
  /-- Publishes files as an image under an address. -/
  push : String → List Path → FileTree → σ → Reply σ
  /-- Writes the files of the image at an address into a directory. -/
  pull : String → Path → FileTree → σ → Reply σ

namespace ImageService

variable {σ : Type}

/-- Puts a call into the journal, takes over what it did, and gives its outcome. -/
def calling (e : Event) (call : FileTree → σ → Reply σ) : Run σ (Except ImageError Unit) := do
  let w ← get
  let r := call w.files w.services
  set { w with
    files := r.files
    services := r.services
    journal := w.journal ++ e :: r.activities.map .activity }
  match r.outcome with
  | .ok () => return .ok ()
  | .error (.image cause) => return .error cause
  | .error failure => throw failure

/-- Publishes an archived image. -/
def copyImage (s : ImageService σ) (image : Path) (address : String) :
    Run σ (Except ImageError Unit) :=
  calling (.copy image address) (s.copy image address)

/-- Publishes files as an image; the journal keeps the rows that are in them. -/
def pushFiles (s : ImageService σ) (address : String) (paths : List Path) :
    Run σ (Except ImageError Unit) := do
  let t ← Run.files
  calling (.push address (paths.map fun p => (p, snapshotAt t p))) (s.push address paths)

/-- Fetches the files of an image into a directory. -/
def pullFiles (s : ImageService σ) (address : String) (directory : Path) :
    Run σ (Except ImageError Unit) :=
  calling (.pull address directory) (s.pull address directory)

end ImageService

end PluginCatalog
