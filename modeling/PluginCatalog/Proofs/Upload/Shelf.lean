import PluginCatalog.Proofs.FileTree.Paved
import PluginCatalog.Proofs.Upload.Registry

/-!
# A shelf

A shelf is the simplest registry: a list of files with their addresses. `Shelf.registry` says that
it does what is relied on.

`sampleUploader` publishes a bundle to it, of which `sampleBundle` are the members and `sampleFiles`
the files in which it comes.
-/

namespace PluginCatalog

/-- The files on a shelf, each with its address and its name; of an address the first one counts. -/
abbrev Shelf := List (String × String × Content)

/-- The rows in a file, if it is a store that can be read. -/
def Content.rows? (c : Content) : Option (List ReadRow) :=
  match c.store? with
  | some (.table l) => some l.read
  | _ => none

theorem rowsAt?_of_file? {t : FileTree} {p : Path} {c : Content} (h : t.file? p = some c) :
    rowsAt? t p = c.rows? := by
  unfold rowsAt? rowsAt storeAt Content.rows?
  rw [h]
  cases hc : c.store? with
  | none => simp [hc, bind, Except.bind, Except.toOption]
  | some store =>
    cases store <;> simp [hc, Store.hasTable, Store.rows, bind, Except.bind, pure, Except.pure,
      Except.toOption, throw, throwThe, MonadExceptOf.throw]

namespace Shelf

/-- What is held at an address. -/
def held (shelf : Shelf) (address : String) : Option Holding :=
  (shelf.lookup address).map fun (name, c) => ⟨name, c.rows?⟩

/-- The service of a shelf. Fetching fails if the file cannot be read where it was put. -/
def service : ImageService Shelf where
  copy _ _ t shelf := ⟨t, shelf, [], .ok ()⟩
  push address paths t shelf :=
    match paths.map fun p => (p.name, t.file? p) with
    | [(name, some c)] => ⟨t, (address, name, c) :: shelf, [], .ok ()⟩
    | _ => ⟨t, shelf, [], .error (.image (.failed "no file"))⟩
  pull address directory t shelf :=
    match shelf.lookup address with
    | none => ⟨t, shelf, [], .error (.image (.absent "NOT_FOUND"))⟩
    | some (name, c) =>
      let t := t.placeFile (directory / name) c
      let outcome := if rowsAt? t (directory / name) = c.rows? then .ok ()
        else .error (.image (.failed "not written"))
      ⟨t, shelf, [], outcome⟩

/-- **A shelf is a registry.** -/
theorem registry : Registry service held where
  copied _ _ _ _ := rfl
  pushed address p t shelf h := by
    unfold service at h ⊢
    rcases hf : t.file? p with _ | c
    · simp [hf] at h
    · funext a
      simp only [List.map_cons, List.map_nil, hf, held, lookup_cons, rowsAt?_of_file? hf,
        Function.update_apply]
      split <;> rfl
  refused address p t shelf e h := by
    unfold service at h ⊢
    rcases hf : t.file? p with _ | c
    · simp [hf]
    · simp [hf] at h
  kept address directory t shelf := by
    unfold service
    dsimp only
    split <;> rfl
  pulled address directory t shelf h := by
    unfold service at h ⊢
    dsimp only at h ⊢
    rcases hl : shelf.lookup address with _ | ⟨name, c⟩
    · simp [hl] at h
    · simp only [hl] at h
      split at h
      next hr => exact ⟨⟨name, c.rows?⟩, by simp [held, hl], by simpa [hl] using hr⟩
      next => cases h

/-- A shelf does not deny what it holds. -/
theorem not_absent_of_held (address : String) (directory : Path) (t : FileTree) (shelf : Shelf)
    (h : Holding) (message : String) (hheld : shelf.held address = some h) :
    (service.pull address directory t shelf).outcome ≠ .error (.image (.absent message)) := by
  unfold held at hheld
  unfold service
  dsimp only
  rcases hl : shelf.lookup address with _ | ⟨name, c⟩
  · simp [hl] at hheld
  · dsimp only
    split <;> simp

end Shelf

/-! ## Bundles for it -/

/-- A store with a row for each of some plugins. -/
def sampleStore (names : List String) : Store :=
  .table ⟨.standard, names.map fun name => sampleRow name "k8s" "v1"⟩

/-- The members of a bundle with a store; there may be more lines in its manifest. -/
def sampleBundle (store : Store) (lines : String := "") : List Member :=
  [⟨"plugin_bundle/plugin_migration_manifest.yaml", .file (.text
      ("relativeInventoryImagePathWithTag: catalog\ninventoryMetadataImage:\n"
        ++ "  sourceFilePath: s.db\n  relativeImagePathWithTag: inventory\n" ++ lines))⟩,
    ⟨"plugin_bundle/s.db", .file (.store store)⟩]

/-- Files of which the only one is the archive of a bundle. -/
def sampleFiles (members : List Member) : FileTree :=
  ⟨[], [(["b.tar"], .file 0 (.archive ⟨false, members⟩))]⟩

/-- The bundle in the archive is published to a repository, without pauses. -/
def sampleUploader : Uploader :=
  { archive := "/b.tar", scratch := "/tmp", destination := .text "r.io", delay := 0 }

/-- There is a place for the directory of the run. -/
theorem clear_sampleFiles (members : List Member) :
    FileTree.Clear (sampleFiles members) sampleUploader.scratch := by
  have hscratch : sampleUploader.scratch = ⟨1, ["tmp"]⟩ := by decide +kernel
  rw [hscratch]
  exact FileTree.clear_of_root (by decide) ⟨by decide, by decide⟩ fun _ => rfl

end PluginCatalog
