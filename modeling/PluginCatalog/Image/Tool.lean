import PluginCatalog.Image.Service
import PluginCatalog.Text.Occurrence

/-!
# Image tools

An image service may be a program that is started for each call, with the call in its arguments.

* `Program` is what a program does, as a function of its arguments, the files and a state.
* `ImageTool` is a program with its time limit; `ImageTool.copy`, `push` and `pull` are its calls.
  A call fails unless the program ends with the exit code zero; a run that is broken
  (`ProcessResult.broken`) fails with its fault.
* A fetch of an image fails with `ImageError.absent` when the output of the program holds a code
  with which registries answer for an image that they do not have (`reportsAbsence`).
* `ImageTool.service` is the tool as an image service.
-/

namespace PluginCatalog

/-- How a program that was to be started ended. -/
inductive ProcessResult where
  | finished (code : Int) (stdout stderr : String)
  | timedOut
  /-- The system did not start it, for the given reason. -/
  | notStarted (reason : String)
  /-- It could not be run to an end: a word has the null character, the time limit is no number
  (`Fault.malformedNumber`) or too long for a clock, or what the program wrote is no text. -/
  | broken (cause : Fault)
  deriving DecidableEq, Repr

/-- What running a program comes to, on the side of the system too: how it ends, and the files and
the state after it. -/
abbrev Program (σ : Type) := List Value → FileTree → σ → ProcessResult × FileTree × σ

/-- A program that transfers images; the settings may give its name as a value of any kind. -/
structure ImageTool where
  executable : Value
  limit : Option TimeLimit

namespace ImageTool

variable {σ : Type}

/-- The usual time limit in seconds. -/
def usualLimit : TimeLimit := .whole 600

/-- The time limit of each call; no limit and the limit zero are the usual one. -/
def timeLimit (tool : ImageTool) : TimeLimit :=
  match tool.limit with
  | none | some (.whole 0) => usualLimit
  | some (.whole n) => .whole n
  | some (.real x) => if x == 0 then usualLimit else .real x

/-! ## Running the program -/

/-- The output of a program that failed, or what stands for it; nothing for a success. -/
def failureOutput (limit : TimeLimit) : ProcessResult → Option String
  | .finished code stdout stderr => if code = 0 then none else some (stdout ++ stderr)
  | .timedOut => some s!"Command timed out after {limit.text} seconds"
  | .notStarted reason => some s!"Error running imgpkg: {reason}"
  | .broken _ => none

/-- The words of a command with blanks between them; a name of the program that is no text cannot
be joined to the rest. -/
def commandText (executable : Value) (arguments : List String) : Except Fault String :=
  match executable with
  | .text name => .ok (Text.joined " " (name :: arguments))
  | _ => .error .mixedKinds

/-- What is said about a program that came to its end and failed. A run that is broken ends the
call. -/
def remarks (executable : Value) (arguments : List String) :
    ProcessResult → Except Fault (List Activity)
  | .finished code stdout stderr =>
    if code = 0 then .ok []
    else return [.note .debug s!"imgpkg command failed: {← commandText executable arguments}",
      .note .debug s!"Output: {stdout ++ stderr}"]
  | .timedOut | .notStarted _ => .ok []
  | .broken cause => .error cause

/-- The files that are there, with the rows in them. -/
def snapshots (t : FileTree) (paths : List Path) : List (Path × Snapshot) :=
  (paths.filter t.pathExists).map fun p => (p, snapshotAt t p)

/-- Starts the program, which is given some files to publish. `onFailure` makes an error of the
output of a program that failed. -/
def call (tool : ImageTool) (program : Program σ) (arguments : List String) (given : List Path)
    (onFailure : String → ImageError) (t : FileTree) (state : σ) : Reply σ :=
  let words := tool.executable :: arguments.map .text
  let (result, files, services) := program words t state
  let start : Activity := .process words tool.timeLimit (snapshots t given)
  match remarks tool.executable arguments result, failureOutput tool.timeLimit result with
  | .error fault, _ => ⟨files, services, [start], .error (.fault fault)⟩
  | .ok said, none => ⟨files, services, start :: said, .ok ()⟩
  | .ok said, some output => ⟨files, services, start :: said, .error (.image (onFailure output))⟩

/-! ## Calls -/

/-- The codes with which registries answer for an image that they do not have. -/
def absenceCodes : List String := ["MANIFEST_UNKNOWN", "NAME_UNKNOWN", "NOT_FOUND"]

/-- Whether an output says that there is no such image. -/
def reportsAbsence (output : String) : Bool :=
  absenceCodes.any fun code => Text.occurs code.toList output.toList

/-- Publishes an archived image. -/
def copy (tool : ImageTool) (program : Program σ) (archive address : String) :
    FileTree → σ → Reply σ :=
  tool.call program ["copy", "--tar", archive, "--to-repo", address] [] fun output =>
    .failed s!"copying image from {archive} to {address} failed: {Text.stripped output}"

/-- Publishes files as an image. -/
def push (tool : ImageTool) (program : Program σ) (address : String) (paths : List String) :
    FileTree → σ → Reply σ :=
  tool.call program (["push", "-i", address] ++ paths.flatMap fun path => ["-f", path])
    (paths.map Path.ofText) fun output =>
      .failed s!"pushing image {address} failed: {Text.stripped output}"

/-- Fetches the files of an image into a directory. -/
def pull (tool : ImageTool) (program : Program σ) (address directory : String) :
    FileTree → σ → Reply σ :=
  tool.call program ["pull", "-i", address, "-o", directory] [] fun output =>
    if reportsAbsence output then .absent s!"image {address} does not exist"
    else .failed s!"pulling image {address} failed: {Text.stripped output}"

/-- The tool as an image service. -/
def service (tool : ImageTool) (program : Program σ) : ImageService σ where
  copy image address := tool.copy program image.text address
  push address paths := tool.push program address (paths.map Path.text)
  pull address directory := tool.pull program address directory.text

end ImageTool

end PluginCatalog
