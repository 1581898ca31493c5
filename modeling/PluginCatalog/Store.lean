import PluginCatalog.Store.Table

/-!
# Stores

A store is a file that may hold the table of the catalogue.

* `Store.rows` are the rows of a store that has a complete table.
* `Store.insert` adds rows to it.
-/

namespace PluginCatalog

/-- The contents of a store file. -/
inductive Store where
  /-- A store without the table of the catalogue. -/
  | foreign
  /-- A store whose table has only the column of the plugin's name. -/
  | incomplete
  /-- A store with the table. -/
  | table (t : Table)

namespace Store

/-- Whether a store has the table, complete or not. -/
def hasTable : Store → Bool
  | foreign => false
  | incomplete | table _ => true

/-- The store with the table: an empty one if there was none. -/
def withTable : Store → Store
  | foreign => table .empty
  | s => s

/-- The rows of a store in the order of their keys. -/
def rows : Store → Except TableFault (List ReadRow)
  | table t => .ok t.read
  | foreign | incomplete => .error .unreadable

/-- Adds rows to a store, all or none. -/
def insert (rows : List (Row (Option Bool))) : Store → Except TableFault Store
  | table t => (t.insert rows).map table
  | foreign | incomplete => .error .unwritable

end Store

end PluginCatalog
