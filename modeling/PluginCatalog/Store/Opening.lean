import PluginCatalog.Run
import PluginCatalog.Store.Merge

/-!
# Stores in files

* `openStore p` is the store in the file at `p`; `readStore p` are its rows.
* `createStore p` makes a store with an empty table, unless there is a store with the table.
* `insertRows p rows` adds rows to a store, all or none.
* `mergeStore present incoming` absorbs the rows of one store into another. It does nothing when
  the incoming path leads to nothing. Rows are absorbed under a lock, a file beside the store that
  stays (`takeLock`); a merge that fails changes nothing else.

A store is opened by an address in which a question mark ends the name of the file. Names with a
question mark are left out here: they are taken as they are written.
-/

namespace PluginCatalog

variable {σ : Type}

/-! ## Opening -/

/-- The store that a file is. The empty file is a store without tables, and no other text is. -/
def Content.store? : Content → Option Store
  | .data (.store s) => some s
  | .data (.text s) => if s.isEmpty then some .foreign else none
  | .archive _ | .damaged .. => none

/-- The store with a table of the catalogue at a path. -/
def storeAt (t : FileTree) (p : Path) : Except StoreError Store :=
  match t.file? p with
  | none => .error (.missing p)
  | some content =>
    match content.store? with
    | none => .error (.unusable p .notAStore)
    | some store => if store.hasTable then .ok store else .error (.noTable p)

/-- The rows of the store at a path. -/
def rowsAt (t : FileTree) (p : Path) : Except StoreError (List ReadRow) := do
  let store ← storeAt t p
  match store.rows with
  | .ok rows => return rows
  | .error cause => throw (.notRead cause)

/-- The rows of the store at a path as they are now, for the journal. -/
def snapshotAt (t : FileTree) (p : Path) : Snapshot :=
  match rowsAt t p with
  | .ok rows => .ok rows
  | .error e => .error (.store e)

/-- A result of looking at a store, as a step of a run. -/
def Run.ofStore {α : Type} : Except StoreError α → Run σ α
  | .ok a => return a
  | .error e => Run.storeError e

/-- Opens the store at a path. -/
def openStore (p : Path) : Run σ Store := do Run.ofStore (storeAt (← Run.files) p)

/-- Reads the rows of the store at a path. -/
def readStore (p : Path) : Run σ (List ReadRow) := do Run.ofStore (rowsAt (← Run.files) p)

/-! ## Creating -/

/-- Puts the table into the store at a path, where there may be nothing or an empty file yet. -/
def createAt (t : FileTree) (p : Path) : Except TableFault FileTree :=
  match t.follow p with
  | .ok (.taken _ (.file serial content)) =>
    match content.store? with
    | none => .error .notAStore
    | some store => .ok (t.setContent serial (.store store.withTable))
  | .ok (.free loc) => .ok (t.set loc (.file t.freshSerial (.store (.table .empty))))
  | .ok (.taken _ _) | .error _ => .error .notOpened

/-- Makes the directories above a path and a store with the table at it. -/
def createStore (p : Path) : Run σ Unit := do
  let (t, made) := (← Run.files).ensureDirectory p.parent
  Run.setFiles t
  match made with
  | .error e => Run.fault (.file e)
  | .ok () =>
    match createAt t p with
    | .error cause => Run.storeError (.notCreated p cause)
    | .ok t =>
      Run.setFiles t
      Run.note .debug s!"Initialized inventory schema at {p.text}"

/-! ## Writing -/

/-- Replaces the store at a path. -/
def replaceStore (t : FileTree) (p : Path) (store : Store) : FileTree :=
  match t.follow p with
  | .ok (.taken _ (.file serial _)) => t.setContent serial (.store store)
  | _ => t

/-- Adds rows to the store that was opened at a path, and says how many. -/
def insertInto (p : Path) (store : Store) (rows : List (Row (Option Bool))) : Run σ Nat := do
  if rows.isEmpty then return 0
  match store.insert rows with
  | .error cause => Run.storeError (.notInserted cause)
  | .ok store =>
    Run.setFiles (replaceStore (← Run.files) p store)
    return rows.length

/-- Adds rows to the store at a path, and says how many. -/
def insertRows (p : Path) (rows : List (Row (Option Bool))) : Run σ Nat := do
  insertInto p (← openStore p) rows

/-! ## Merging -/

/-- The merge of incoming rows into a store. -/
def Store.merge (incoming : List ReadRow) : Store → Except TableFault (Store × MergeReport)
  | .table t => (t.merge incoming).map fun (t, report) => (.table t, report)
  | .foreign | .incomplete => .error .unreadable

/-- Takes the lock of the store at a path. The lock is given back afterwards, but its file stays. -/
def takeLock (p : Path) : Run σ Unit := do
  match (← Run.files).takeLock p.lock with
  | .error cause => Run.fault (.file cause)
  | .ok t => Run.setFiles t

/-- Merges rows into the store at `present`, under its lock. -/
def mergeRows (present incoming : Path) (rows : List ReadRow) : Run σ Bool := do
  takeLock present
  match storeAt (← Run.files) present with
  -- It was opened before, and is no store any more: the lock is another name of its file.
  | .error _ => Run.storeError (.notRead .noTable)
  | .ok store =>
    match store.rows, store.merge rows with
    | .error cause, _ => Run.storeError (.notRead cause)
    | .ok _, .error cause => Run.storeError (.notMerged incoming present cause)
    | .ok _, .ok (store, report) =>
      Run.setFiles (replaceStore (← Run.files) present store)
      Run.note .info (s!"Merged {report.rows} row(s) from {incoming.text}: "
        ++ s!"{report.added} added, {report.replaced} replaced by published data")
      return true

/-- Merges the store at `incoming` into the one at `present`. The answer tells whether there was an
incoming store. -/
def mergeStore (present incoming : Path) : Run σ Bool := do
  if present.name.isEmpty then Run.fault .nameless
  else if (← Run.files).pathExists incoming then
    let _ ← openStore present
    let rows ← readStore incoming
    if rows.isEmpty then
      Run.note .info s!"Inventory metadata at {incoming.text} is empty, nothing to merge"
      return true
    else mergeRows present incoming rows
  else
    Run.note .info s!"No inventory metadata at {incoming.text}, nothing to merge"
    return false

end PluginCatalog
