import PluginCatalog.Inventory.Entry
import PluginCatalog.Fault
import PluginCatalog.Outline.Json
import PluginCatalog.Outline.Yaml
import PluginCatalog.Text.Fields

/-!
# Listings

A listing shows the entries of a catalogue in one of three formats.

* `Entry.outline` is all that is known about an entry.
* `table` shows the names, targets and versions of entries in columns.
* `listing` shows entries in a format.
-/

namespace PluginCatalog

/-- The format of a listing. -/
inductive Format where
  | table
  | yaml
  | json
  deriving DecidableEq, Repr

/-! ## Outlines -/

/-- All that is known about an artifact. -/
def Artifact.outline (a : Artifact) : Outline :=
  .record [("os", .ofOption a.os), ("arch", .ofOption a.architecture),
    ("digest", .ofOption a.digest), ("image", .ofOption a.image), ("uri", .ofOption a.uri)]

/-- All that is known about an entry. -/
def Entry.outline (e : Entry) : Outline :=
  .record [("name", .ofOption e.name), ("target", .text e.target),
    ("description", .ofOption e.description), ("publisher", .ofOption e.publisher),
    ("vendor", .ofOption e.vendor), ("recommended_version", .text e.recommended),
    ("available_versions", .list (e.versions.map .text)),
    ("artifacts", .record (e.artifacts.map fun (version, artifacts) =>
      (version, .list (artifacts.map (·.outline)))))]

/-! ## Tables -/

/-- A row of the table: three cells of a column each, and a last one. -/
structure TableRow where
  cells : List String
  last : String
  deriving DecidableEq, Repr

/-- The titles of the columns. -/
def titles : TableRow := ⟨["NAME", "TARGET", "RECOMMENDED"], "VERSIONS"⟩

/-- The row of an entry, whose plugin must have a name. -/
def Entry.tableRow (e : Entry) : Except Fault TableRow :=
  match e.name with
  | none => .error .mixedKinds
  | some name =>
    let target := if e.target.isEmpty then "global" else e.target
    .ok ⟨[name, target, e.recommended], Text.joined ", " e.versions⟩

/-- A text with blanks after it up to a width. -/
def inColumn (width : Nat) (s : String) : String :=
  s ++ String.ofList (List.replicate (width - s.length) ' ')

/-- The greater width of each column. -/
def widened (widths : List Nat) (row : TableRow) : List Nat :=
  widths.zipWith (fun width cell => max width cell.length) row.cells

/-- The line of a row in columns of the given widths. -/
def line (widths : List Nat) (row : TableRow) : String :=
  Text.joined "  " (widths.zipWith inColumn row.cells ++ [row.last]) ++ "\n"

/-- The table of entries. -/
def table (es : List Entry) : Except Fault String := do
  if es.isEmpty then return "No plugins found.\n"
  let rows := titles :: (← es.mapM (·.tableRow))
  let widths := rows.foldl widened [0, 0, 0]
  return String.join (rows.map (line widths))

/-! ## Formats -/

/-- The entries in a format. -/
def listing (format : Format) (es : List Entry) : Except Fault String :=
  match format with
  | .table => table es
  | .json => .ok ((Outline.list (es.map (·.outline))).json ++ "\n")
  | .yaml => .ok (Outline.list (es.map (·.outline))).yaml

end PluginCatalog
