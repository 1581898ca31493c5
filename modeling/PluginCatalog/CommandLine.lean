import PluginCatalog.CommandLine.Command
import PluginCatalog.Inventory
import PluginCatalog.Publication
import PluginCatalog.Text.Terminal

/-!
# The command line

* `Command.execute` does what a command asks for.
* `Outcome` is what a run of the program leaves: an exit code, what it printed, and the fault that
  ended it, if one did. `CommandLine.run` is the run for the words of a command line.
-/

namespace PluginCatalog

namespace CommandLine

variable {σ : Type}

/-- The version of the program. -/
def programVersion : String := "0.1.0"

/-! ## Commands -/

/-- The end of a command that does not fail. -/
inductive Ending where
  | printed (text : String)
  | misused (m : Misuse)

/-- The end of publishing a bundle. -/
def publishing (env : Environment) (program : Program σ) (scratch archive : Path)
    (destination : Option String) (delay : Option Float) (config : Option Path)
    (host : Host := {}) : Run σ Ending := do
  let settings ← Run.ofExcept (Settings.load env (← Run.files) config host)
  if delay.any (· < 0) then
    return .misused ⟨.upload, .invalidValue "--upload-delay" .negative⟩
  let settings := { settings with delay := delay.getD settings.delay }
  match Uploader.ofSettings settings scratch archive destination host with
  | .error cause => throw (.upload cause)
  | .ok uploader =>
    let address ← uploader.run ((ImageTool.ofSettings settings).service program)
    return .printed (address ++ "\n")

/-- Does what a command asks for. -/
def Command.execute (env : Environment) (program : Program σ) (scratch : Path)
    (host : Host := {}) : Command → Run σ Ending
  | .list directory imagePrefix filter format => do
    let directory := directory.getD (inventoryDirectory env host)
    let es ← Inventory.plugins ⟨directory, imagePrefix.getD directory.text⟩ filter
    match listing format es with
    | .ok text => return .printed text
    | .error fault => Run.fault fault
  | .upload archive destination delay config =>
    publishing env program scratch archive destination delay config host
  | .merge present incoming => do
    if ← mergeStore present incoming then
      return .printed s!"Merged {incoming.text} into {present.text}\n"
    else return .printed s!"{incoming.text} does not exist, nothing merged\n"

/-! ## Runs of the program -/

/-- What a run of the program leaves. -/
structure Outcome where
  exitCode : Nat
  stdout : String
  stderr : String
  /-- The fault that ended the run. -/
  fault : Option Fault

/-- The line of a message. Those for the search of errors are shown if they are asked for. -/
def messageLine (verbose : Bool) : Event → String
  | .activity (.note level text) =>
    if level = .debug ∧ !verbose then "" else s!"{level.name} {text}\n"
  | _ => ""

/-- The lines of all messages of a journal. -/
def messages (verbose : Bool) (journal : List Event) : String :=
  String.join (journal.map (messageLine verbose))

/-- What a misuse leaves after some messages. -/
def misuse (before : String) (m : Misuse) : Outcome :=
  ⟨2, "", before ++ Text.withoutCodes (m.error.report m.place), none⟩

/-- What the end of a command leaves after some messages. -/
def Outcome.ofEnding (before : String) : Except Failure Ending → Outcome
  | .ok (.printed text) => ⟨0, Text.withoutCodes text, before, none⟩
  | .ok (.misused m) => misuse before m
  | .error failure =>
    match failure.wording with
    | .ok text => ⟨1, "", before ++ Text.withoutCodes s!"Error: {text}\n", none⟩
    | .error cause => ⟨1, "", before, some cause⟩

/-- Runs the program for the words of a command line. -/
def run (env : Environment) (program : Program σ) (scratch : Path) (words : List String)
    (w : World σ) (host : Host := {}) : Outcome × World σ :=
  match Invocation.ofWords w.files words with
  | .error m => (misuse "" m, w)
  | .ok .showVersion => (⟨0, s!"{programName}, version {programVersion}\n", "", none⟩, w)
  | .ok (.showUsage place asked) =>
    (if asked then ⟨0, place.usage, "", none⟩ else ⟨2, "", place.usage, none⟩, w)
  | .ok (.run verbose command) =>
    let (answer, w) := (command.execute env program scratch host).run.run w
    (.ofEnding (messages verbose w.journal) answer, w)

end CommandLine

end PluginCatalog
