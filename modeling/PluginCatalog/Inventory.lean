import PluginCatalog.Inventory.Query
import PluginCatalog.Store.Opening

/-!
# Inventories

An inventory is a store in a directory, together with the common beginning of the addresses of its
images.

* `Inventory.create`, `Inventory.insert` and `Inventory.plugins` make its store, add the builds of
  a plugin to it, and query it.
* `Inventory.recommendations` are the plugins for a target with the versions to install, hidden
  builds left out.
-/

namespace PluginCatalog

/-- A platform build of a plugin that is to be added: its address is given as stored, or else as the
address of its image. -/
structure NewArtifact where
  os : Option String
  architecture : Option String
  digest : Option String
  image : Option String
  uri : Option String
  deriving DecidableEq, Repr

/-- A plugin that is to be added, with its builds by version. -/
structure NewPlugin where
  name : Option String
  target : Option String
  description : Option String
  publisher : Option String
  vendor : Option String
  recommended : Option String
  builds : List (Option String × List NewArtifact)
  deriving DecidableEq, Repr

/-- A store in a directory and the common beginning of its addresses. -/
structure Inventory where
  directory : Path
  imagePrefix : String
  deriving DecidableEq, Repr

namespace Inventory

variable {σ : Type}

/-- The name of the store in the directory of an inventory. -/
def storeName : String := "plugin_inventory.db"

/-- The path of the store. -/
def storePath (i : Inventory) : Path := i.directory / storeName

/-- Makes the store of an inventory unless it is there. -/
def create (i : Inventory) : Run σ Unit := createStore i.storePath

/-! ## Adding a plugin -/

/-- The address under which a build is stored: the one given, or else the path of its image below
the common beginning. An absent image has no path. -/
def storedUri (imagePrefix : String) (a : NewArtifact) : Except Fault (Option String) :=
  if Filter.isSet a.uri then .ok a.uri
  else match a.image with
    | some image => .ok (some (Address.relative imagePrefix image))
    | none => if imagePrefix.isEmpty then .ok none else .error .notText

/-- The row of a build. -/
def newRow (imagePrefix : String) (p : NewPlugin) (version : Option String) (a : NewArtifact) :
    Except Fault (Row (Option Bool)) := do
  let uri ← storedUri imagePrefix a
  return {
    name := p.name
    target := p.target
    recommended := p.recommended
    version
    hidden := some false
    description := p.description
    publisher := p.publisher
    vendor := p.vendor
    os := a.os
    architecture := a.architecture
    digest := a.digest
    uri }

/-- The rows of all builds of a plugin. -/
def newRows (imagePrefix : String) (p : NewPlugin) : Except Fault (List (Row (Option Bool))) :=
  (p.builds.flatMap fun (version, artifacts) => artifacts.map (version, ·)).mapM
    fun (version, a) => newRow imagePrefix p version a

/-- Adds the builds of a plugin to the store, all or none. -/
def insert (i : Inventory) (p : NewPlugin) : Run σ Unit := do
  let store ← openStore i.storePath
  match newRows i.imagePrefix p with
  | .error fault => Run.fault fault
  | .ok rows =>
    let count ← insertInto i.storePath store rows
    Run.note .debug s!"Inserted {count} artifact(s) for plugin '{shownText p.name}'"

/-! ## Queries -/

/-- The level on which a remark is reported. -/
def remarkLevel : Remark → Level
  | .skipped .. => .warning
  | .inconsistent .. => .debug

/-- The entries of the rows that a filter admits. -/
def plugins (i : Inventory) (f : Filter) : Run σ (List Entry) := do
  let rows ← readStore i.storePath
  let (remarks, answer) := query i.imagePrefix f rows
  for remark in remarks do
    Run.note (remarkLevel remark) remark.message
  match answer with
  | .error fault => Run.fault fault
  | .ok es => return es

/-- The plugins for a target, or for all targets if it is the empty text, with the versions to
install; `context` names who asks. -/
def recommendations (i : Inventory) (context target : String) :
    Run σ (List (Option String × String)) := do
  let es ← i.plugins { target := some target, includeHidden := false }
  Run.note .debug s!"Inventory recommends {es.length} plugin(s) for context '{context}'"
  return es.map fun e => (e.name, e.recommended)

end Inventory

end PluginCatalog
