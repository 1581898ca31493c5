import PluginCatalog.FileTree
import PluginCatalog.Failure

/-!
# Runs

An operation of the catalogue changes files, reports what it does, calls outside services and may
fail. What it reports and calls is kept in a journal, in the order in which it happens, also when
the operation fails later.

* `Event` is an entry of the journal: a call of a service, a pause, or an `Activity`.
* `World` are the files, the journal and the state of the services.
* `Run σ` is the type of operations with services of state `σ`.
* `Run.within p` keeps an operation in a directory that is there for its time only.
-/

namespace PluginCatalog

/-- How important a message is. -/
inductive Level where
  | debug
  | info
  | warning
  | error
  deriving DecidableEq, Repr

/-- The name of a level. -/
def Level.name : Level → String
  | debug => "DEBUG"
  | info => "INFO"
  | warning => "WARNING"
  | error => "ERROR"

/-- The rows that were in a file when it was sent, or why they cannot be read. -/
abbrev Snapshot := Except Failure (List ReadRow)

/-- A time limit in seconds, as it was given. -/
inductive TimeLimit where
  | whole (seconds : Int)
  | real (seconds : Float)

/-- The text of a time limit. -/
def TimeLimit.text : TimeLimit → String
  | whole n => toString n
  | real x => Decimal.text x

/-- What is said and done while an operation or a service works, and is no call of a service. -/
inductive Activity where
  | note (level : Level) (text : String)
  /-- A program is started, with its time limit; the files that it is given are as they were. -/
  | process (arguments : List Value) (limit : TimeLimit) (files : List (Path × Snapshot))

/-- An entry of the journal. -/
inductive Event where
  | activity (a : Activity)
  | sleep (seconds : Float)
  /-- An archived image is published. -/
  | copy (image : Path) (address : String)
  /-- The files of an image are fetched into a directory. -/
  | pull (address : String) (directory : Path)
  /-- Files are published as an image. -/
  | push (address : String) (files : List (Path × Snapshot))

/-- The files, the journal and the state of the outside services. -/
structure World (σ : Type) where
  files : FileTree
  journal : List Event
  services : σ

/-- An operation with services of state `σ`. -/
abbrev Run (σ : Type) := ExceptT Failure (StateM (World σ))

namespace Run

variable {σ : Type}

/-- Adds entries to the journal. -/
def record (es : List Event) : Run σ Unit :=
  modify fun w => { w with journal := w.journal ++ es }

/-- Reports a message. -/
def note (level : Level) (text : String) : Run σ Unit := record [.activity (.note level text)]

/-- The files as they are. -/
def files : Run σ FileTree := return (← get).files

/-- Replaces the files. -/
def setFiles (t : FileTree) : Run σ Unit := modify fun w => { w with files := t }

/-- A result as a step of an operation. -/
def ofExcept {α : Type} : Except Failure α → Run σ α
  | .ok a => return a
  | .error e => throw e

/-- Ends the operation with a fault. -/
def fault {α : Type} (f : Fault) : Run σ α := throw (.fault f)

/-- Ends the operation with an error of a store. -/
def storeError {α : Type} (e : StoreError) : Run σ α := throw (.store e)

/-- Runs an operation while there is a directory at a path of the root; at its end, also at a
failure, the directory is removed with all that is in it. -/
def within {α : Type} (directory : Path) (body : Run σ α) : Run σ α := ExceptT.mk fun w =>
  let (answer, w) := body.run.run { w with files := w.files.place directory .directory }
  (answer, { w with files := w.files.eraseBelow directory.parts })

end Run

end PluginCatalog
