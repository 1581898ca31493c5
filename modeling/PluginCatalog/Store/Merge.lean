import PluginCatalog.Store.Table

/-!
# Merging published rows into a table

A table absorbs the rows of another one. Builds that only one side has are kept; of a build that
both have the incoming row wins, with its spelling of the target.

* `latest rows` keeps one row per build: the last one, at the place of the first.
* `mergeReport` counts the rows that come in, the builds that are new and those that change.
* `Table.merge` removes the local rows that an incoming row replaces under another spelling, then
  puts the incoming rows into the table.
-/

namespace PluginCatalog

/-! ## One row per build -/

/-- Replaces the row of the same build, or adds the row at the end. -/
def putBuild (r : ReadRow) : List ReadRow → List ReadRow := putBy Row.build r

/-- The last row of every build, in the order in which the builds come up. -/
def latest (rows : List ReadRow) : List ReadRow :=
  rows.foldl (fun kept r => putBuild r kept) []

/-- The rows of a build. -/
def rowsOf (b : Build) (rows : List ReadRow) : List ReadRow := rows.filter (·.build == b)

theorem mem_rowsOf {b : Build} {rows : List ReadRow} {r : ReadRow} :
    r ∈ rowsOf b rows ↔ r ∈ rows ∧ r.build = b := by
  simp [rowsOf]

/-! ## The report -/

/-- What a merge did: how many rows came in, how many builds were new, how many changed. -/
structure MergeReport where
  rows : Nat
  added : Nat
  replaced : Nat
  deriving DecidableEq, Repr

/-- Whether a build of the incoming row is new. -/
def isAdded (present : List ReadRow) (r : ReadRow) : Bool := (rowsOf r.build present).isEmpty

/-- Whether the rows of a build that is there are not all equal to the incoming row. -/
def isReplaced (present : List ReadRow) (r : ReadRow) : Bool :=
  (rowsOf r.build present).any (· != r)

/-- What merging rows, one per build, into the rows present does. -/
def mergeReport (present incoming : List ReadRow) : MergeReport :=
  { rows := incoming.length
    added := incoming.countP (isAdded present)
    replaced := incoming.countP (isReplaced present) }

/-! ## The merge -/

/-- The keys of the rows present that an incoming row replaces under another spelling. -/
def shadowedKeys (present incoming : List ReadRow) : List Key :=
  incoming.flatMap fun r => ((rowsOf r.build present).map (·.key)).filter (· != r.key)

/-- Merges rows into a table: all or nothing. -/
def Table.merge (t : Table) (incoming : List ReadRow) : Except TableFault (Table × MergeReport) :=
  let incoming := latest incoming
  let present := t.read
  ((t.erase (shadowedKeys present incoming)).upsert incoming).map
    (·, mergeReport present incoming)

end PluginCatalog
