import PluginCatalog.Address
import PluginCatalog.Store.Table
import PluginCatalog.Version.Reading

/-!
# Entries of the catalogue

An entry gathers the rows of one plugin for one target.

* `EntryKey` is a plugin's name with the target that it is made for, `entryKey r` the one of a row.
* `Entry.ofRows` is the entry of a non-empty list of rows of one key: the texts of the last row,
  the artifacts by version, the versions in ascending precedence, and the version to install. That
  is the last recommendation given, or else the last of the ascending versions.
* `entries` are the entries of rows, one for each key, ascending by key.
-/

namespace PluginCatalog

/-- One platform build of a version of a plugin. -/
structure Artifact where
  os : Option String
  architecture : Option String
  digest : Option String
  /-- The address of the image. -/
  image : Option String
  /-- The address as stored. -/
  uri : Option String
  deriving DecidableEq, Repr

/-- What the catalogue says about a plugin for one target. -/
structure Entry where
  name : Option String
  target : String
  description : Option String
  publisher : Option String
  vendor : Option String
  /-- The version to install unless another one is asked for. -/
  recommended : String
  /-- The versions in ascending precedence. -/
  versions : List String
  /-- The artifacts of each version, the versions in the order in which they come up. -/
  artifacts : List (String × List Artifact)
  deriving DecidableEq, Repr

/-! ## Keys of entries -/

/-- A plugin and the target that it is made for. -/
structure EntryKey where
  name : Option String
  target : String
  deriving DecidableEq, Repr

/-- The entry to which a row belongs. -/
def entryKey (r : ReadRow) : EntryKey := ⟨r.name, Target.normalize? r.target⟩

/-- Entries are ordered by name, then by target. -/
def EntryKey.precedes (a b : EntryKey) : Bool :=
  ((compare a.name b.name).then (compare a.target b.target)).isLE

/-- The list without repetitions, each element at its first place. -/
def distinct {α : Type} [BEq α] : List α → List α
  | [] => []
  | a :: l => a :: (distinct l).filter (· != a)

theorem mem_distinct {α : Type} [BEq α] [LawfulBEq α] {l : List α} {a : α} :
    a ∈ distinct l ↔ a ∈ l := by
  induction l with
  | nil => simp [distinct]
  | cons b l ih =>
    by_cases h : a = b
    · simp [distinct, h]
    · simp [distinct, h, ih]

theorem nodup_distinct {α : Type} [BEq α] [LawfulBEq α] (l : List α) : (distinct l).Nodup := by
  induction l with
  | nil => exact .nil
  | cons b l ih => exact List.nodup_cons.2 ⟨by simp, ih.filter _⟩

/-! ## Rows with a version -/

/-- The version of a text, if it is a written one. -/
def Version.ofText? (text : String) : Option Version :=
  match Version.parse text with
  | .ok v => some v
  | .error _ => none

/-- Whether the version of a row is a written one. -/
def hasVersion (r : ReadRow) : Bool := (r.version.bind Version.ofText?).isSome

/-! ## One entry -/

/-- The artifact that a row describes. -/
def Artifact.ofRow (imagePrefix : String) (r : ReadRow) : Artifact :=
  { os := r.os
    architecture := r.architecture
    digest := r.digest
    image := r.uri.map (Address.resolve imagePrefix)
    uri := r.uri }

/-- The artifacts of rows by version, the versions in the order in which they come up. -/
def artifactsByVersion (imagePrefix : String) (rows : List ReadRow) :
    List (String × List Artifact) :=
  (distinct (rows.filterMap (·.version))).map fun version =>
    (version, (rows.filter (·.version == some version)).map (Artifact.ofRow imagePrefix))

/-- Written versions in ascending precedence, equal ones in the order given. -/
def ascending (texts : List String) : List String :=
  (sortByVersion (texts.filterMap fun text => (Version.ofText? text).map (text, ·))).map (·.1)

/-- The last recommendation that rows give, if one gives any. -/
def recommendation? (rows : List ReadRow) : Option String :=
  (rows.filterMap (·.recommended)).reverse.find? (!·.isEmpty)

/-- The entry of the rows of one key. -/
def Entry.ofRows (imagePrefix : String) (key : EntryKey) (rows : List ReadRow) : Entry :=
  let artifacts := artifactsByVersion imagePrefix rows
  let versions := ascending (artifacts.map (·.1))
  { name := key.name
    target := key.target
    description := rows.getLast?.bind (·.description)
    publisher := rows.getLast?.bind (·.publisher)
    vendor := rows.getLast?.bind (·.vendor)
    recommended := (recommendation? rows).getD (versions.getLast?.getD "")
    versions
    artifacts }

/-! ## All entries -/

/-- The keys of rows, ascending. -/
def entryKeys (rows : List ReadRow) : List EntryKey :=
  stableSort EntryKey.precedes (distinct (rows.map entryKey))

/-- The entries of rows that all have a version. -/
def entries (imagePrefix : String) (rows : List ReadRow) : List Entry :=
  (entryKeys rows).map fun key =>
    Entry.ofRows imagePrefix key (rows.filter (entryKey · == key))

end PluginCatalog
