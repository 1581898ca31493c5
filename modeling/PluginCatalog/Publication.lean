import PluginCatalog.Image.Tool
import PluginCatalog.Settings
import PluginCatalog.Upload

/-!
# Publishing with the settings

* `ImageTool.ofSettings` and `Uploader.ofSettings` are the tool and the uploader of settings.
* `publishBundle` publishes a bundle with the settings of a file and of the environment.
-/

namespace PluginCatalog

/-- The image tool of settings. -/
def ImageTool.ofSettings (s : Settings) : ImageTool := ⟨s.executable, s.limit.map .real⟩

/-- The uploader of settings. A repository that is given and not empty goes before that of the
settings; there must be one. -/
def Uploader.ofSettings (s : Settings) (scratch archive : Path) (destination : Option String)
    (host : Host := {}) : Except UploadError Uploader :=
  let given := (destination.filter (!·.isEmpty)).map Value.text
  let repository := given.getD s.destination
  if repository.isTruthy then
    .ok { archive, scratch, destination := repository, delay := s.delay, sleep := host.sleep }
  else .error .noDestination

/-- Publishes the bundle in the archive of the given name, and gives the address of the published
inventory. -/
def publishBundle {σ : Type} (env : Environment) (program : Program σ) (scratch : Path)
    (archive : String) (destination : Option String) (config : Option Path)
    (host : Host := {}) : Run σ String := do
  let settings ← Run.ofExcept (Settings.load env (← Run.files) config host)
  match Uploader.ofSettings settings scratch archive destination host with
  | .error cause => throw (.upload cause)
  | .ok uploader =>
    match uploader.destination.text? with
    | none => Run.fault .overlongNumber
    | some repository =>
      Run.note .debug s!"Publishing {archive} to {repository}"
      uploader.run ((ImageTool.ofSettings settings).service program)

end PluginCatalog
