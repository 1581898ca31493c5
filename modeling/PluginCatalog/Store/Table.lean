import PluginCatalog.Keyed
import PluginCatalog.Sorting
import PluginCatalog.Store.Flag
import PluginCatalog.Store.Row

/-!
# The table of a store

* `Table.read` are the rows of a table in the order of their keys, the flags as truth values and an
  absent recommendation as the empty one.
* `Table.insert` adds rows, all or none: in a standard table every column needs a value and no two
  rows have one key.
* `Table.upsert` adds a row or, if its key is there, replaces what is stored under it;
  `Table.erase` removes the rows of given keys.
-/

namespace PluginCatalog

/-- A row as it is stored. -/
abbrev StoredRow := Row StoredFlag

/-- A row as it is read. -/
abbrev ReadRow := Row Bool

/-- Whether a table constrains its rows. -/
inductive Layout where
  /-- Every column needs a value, and keys are unique. -/
  | standard
  /-- The same columns without any constraint. -/
  | nullable
  deriving DecidableEq, Repr

/-- Why a store refuses to be read or written. -/
inductive TableFault where
  /-- The file is no store. -/
  | notAStore
  /-- The path cannot be opened as a file. -/
  | notOpened
  /-- The table that was there is gone. -/
  | noTable
  /-- The table lacks the columns that are read. -/
  | unreadable
  /-- The table lacks the columns that are written. -/
  | unwritable
  /-- A column that needs a value has none. -/
  | missingValue (column : String)
  /-- A row of the same key is there already. -/
  | duplicateKey
  /-- Rows cannot be replaced by key, because keys are not unique. -/
  | noUniqueKey
  deriving DecidableEq, Repr

/-- The wording of the fault. -/
def TableFault.message : TableFault → String
  | notAStore => "(sqlite3.DatabaseError) file is not a database"
  | notOpened => "(sqlite3.OperationalError) unable to open database file"
  | noTable => "(sqlite3.OperationalError) no such table: PluginBinaries"
  | unreadable => "(sqlite3.OperationalError) no such column: PluginBinaries.Target"
  | unwritable =>
    "(sqlite3.OperationalError) table PluginBinaries has no column named Target"
  | missingValue column =>
    s!"(sqlite3.IntegrityError) NOT NULL constraint failed: PluginBinaries.{column}"
  | duplicateKey =>
    "(sqlite3.IntegrityError) UNIQUE constraint failed: PluginBinaries.PluginName, "
      ++ "PluginBinaries.Target, PluginBinaries.Version, PluginBinaries.OS, "
      ++ "PluginBinaries.Architecture"
  | noUniqueKey =>
    "(sqlite3.OperationalError) ON CONFLICT clause does not match any PRIMARY KEY or UNIQUE "
      ++ "constraint"

/-- A table: its layout and its rows in the order in which they came. -/
structure Table where
  layout : Layout
  rows : List StoredRow

namespace Table

/-- A standard table without rows. -/
def empty : Table := ⟨.standard, []⟩

/-! ## Reading -/

/-- A stored row as it is read. -/
def readRow (r : StoredRow) : ReadRow :=
  { r.withHidden r.hidden.isSet with recommended := some (r.recommended.getD "") }

@[simp] theorem key_readRow (r : StoredRow) : (readRow r).key = r.key := rfl

@[simp] theorem build_readRow (r : StoredRow) : (readRow r).build = r.build := rfl

/-- The rows of a table in the order of their keys. -/
def read (t : Table) : List ReadRow :=
  (stableSort (fun a b => a.key.precedes b.key) t.rows).map readRow

/-- Reading loses no row and adds none. -/
theorem read_perm (t : Table) : t.read.Perm (t.rows.map readRow) :=
  (stableSort_perm _ t.rows).map readRow

/-! ## Writing -/

/-- A row as the catalogue stores it, its flag written as a word. -/
def storedRow (r : Row (Option Bool)) : StoredRow := r.withHidden (StoredFlag.ofBool? r.hidden)

/-- A row that is complete, as the catalogue stores it. -/
def storedReadRow (r : ReadRow) : StoredRow := storedRow (r.withHidden (some r.hidden))

/-- Adds one row. -/
def insertRow (t : Table) (r : Row (Option Bool)) : Except TableFault Table :=
  match t.layout with
  | .nullable => .ok { t with rows := t.rows ++ [storedRow r] }
  | .standard =>
    match r.missing? r.hidden.isSome with
    | some column => .error (.missingValue column)
    | none =>
      if t.rows.any (·.key == r.key) then .error .duplicateKey
      else .ok { t with rows := t.rows ++ [storedRow r] }

/-- Adds rows, all or none. -/
def insert (t : Table) (rows : List (Row (Option Bool))) : Except TableFault Table :=
  rows.foldlM insertRow t

/-- Removes the rows of the given keys. -/
def erase (t : Table) (keys : List Key) : Table :=
  { t with rows := t.rows.filter fun r => !keys.contains r.key }

/-- Replaces what is stored under the key of `r`, or adds `r` at the end. -/
def putRow (r : StoredRow) : List StoredRow → List StoredRow := putBy Row.key r

/-- Adds a row, or replaces the one of its key. -/
def upsertRow (t : Table) (r : ReadRow) : Except TableFault Table :=
  match r.missing? true with
  | some column => .error (.missingValue column)
  | none => .ok { t with rows := putRow (storedReadRow r) t.rows }

/-- Adds or replaces rows, all or none; the table must have unique keys. -/
def upsert (t : Table) (rows : List ReadRow) : Except TableFault Table :=
  match t.layout with
  | .nullable => .error .noUniqueKey
  | .standard => rows.foldlM upsertRow t

end Table

end PluginCatalog
