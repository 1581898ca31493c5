import PluginCatalog.CommandLine.Words
import PluginCatalog.Decimal.Numeral
import PluginCatalog.FileTree
import PluginCatalog.Inventory.Filter
import PluginCatalog.Listing

/-!
# Commands

* `Command` is what can be done from the command line.
* `Invocation.ofWords` reads the words of a command line: a command with its options, or a question
  about the program. Options are checked in the order in which they are given, those that are
  missing afterwards, and words that are too many last.
-/

namespace PluginCatalog.CommandLine

/-- What can be done from the command line. -/
inductive Command where
  /-- Shows the entries of the inventory in a directory. -/
  | list (directory : Option Path) (imagePrefix : Option String) (filter : Filter)
    (format : Format)
  /-- Publishes a bundle. -/
  | upload (archive : Path) (destination : Option String) (delay : Option Float)
    (config : Option Path)
  /-- Merges the second store into the first one. -/
  | merge (present incoming : Path)

/-- What the words of a command line ask for. -/
inductive Invocation where
  | showVersion
  /-- Shows how a place is used; `asked` tells whether the words ask for it. -/
  | showUsage (place : Place) (asked : Bool)
  | run (verbose : Bool) (command : Command)

/-- A misuse and where it happens. -/
structure Misuse where
  place : Place
  error : UsageError
  deriving DecidableEq, Repr

/-! ## Values -/

/-- What stands at a name as written: a slash at its end is for directories only. -/
def standing? (t : FileTree) (name : String) : Option Node :=
  if name.isEmpty then none
  else t.find? (Path.ofTextDotted (if name.toList.getLast? = some '/' then name ++ "." else name))

/-- Refuses a name unless it is that of a file. -/
def checkFile (t : FileTree) (name : String) : Except ValueError Unit :=
  match standing? t name with
  | none => .error (.noSuchFile name)
  | some .directory => .error (.isDirectory name)
  | some _ => .ok ()

/-- Refuses the name of a directory. -/
def checkNoDirectory (t : FileTree) (name : String) : Except ValueError Unit :=
  match standing? t name with
  | some .directory => .error (.isDirectory name)
  | _ => .ok ()

/-- Refuses the name of a file. -/
def checkNoFile (t : FileTree) (name : String) : Except ValueError Unit :=
  match standing? t name with
  | some (.file ..) => .error (.isFile name)
  | _ => .ok ()

/-- The formats by their names. -/
def formats : List (String × Format) := [("table", .table), ("yaml", .yaml), ("json", .json)]

/-- Refuses what is no name of a format. -/
def checkFormat (name : String) : Except ValueError Unit :=
  if (formats.lookup name).isSome then .ok ()
  else .error (.notOneOf name (formats.map (·.1)))

/-- Refuses what is no number. -/
def checkNumber (s : String) : Except ValueError Unit :=
  if (Decimal.float? s.toList).isSome then .ok () else .error (.notANumber s)

/-- A check of what is shown as `parameter`. -/
def checking (parameter : String) (r : Except ValueError Unit) : Except UsageError Unit :=
  r.mapError (.invalidValue parameter)

/-- Checks the options that were given, in order; the last value of each one counts. -/
def checkGiven {ι : Type} [BEq ι] (check : ι → String → Except UsageError Unit)
    (given : List (Given ι)) : Except UsageError Unit :=
  given.forM fun (option, _) => check option ((lastValue? given option).getD "")

/-- Refuses words that are too many. -/
def checkNoWords : List String → Except UsageError Unit
  | [] => .ok ()
  | words => .error (.extraArguments words)

/-! ## Listing -/

/-- The options of a listing. -/
inductive ListOption where
  | directory
  | imagePrefix
  | name
  | target
  | version
  | os
  | architecture
  | publisher
  | vendor
  | includeHidden
  | excludeHidden
  | format
  | help
  deriving DecidableEq, Repr

/-- The names of the options of a listing. -/
def listSwitches : List (Switch ListOption) :=
  [⟨["--inventory-dir"], .directory, true⟩, ⟨["--image-prefix"], .imagePrefix, true⟩,
    ⟨["--name"], .name, true⟩, ⟨["--target"], .target, true⟩, ⟨["--version"], .version, true⟩,
    ⟨["--os"], .os, true⟩, ⟨["--arch"], .architecture, true⟩,
    ⟨["--publisher"], .publisher, true⟩, ⟨["--vendor"], .vendor, true⟩,
    ⟨["--include-hidden"], .includeHidden, false⟩, ⟨["--exclude-hidden"], .excludeHidden, false⟩,
    ⟨["--output", "-o"], .format, true⟩, ⟨["--help"], .help, false⟩]

/-- Refuses a value of an option of a listing. -/
def checkListOption (t : FileTree) : ListOption → String → Except UsageError Unit
  | .directory, name => checking "'--inventory-dir'" (checkNoFile t name)
  | .format, name => checking "'--output' / '-o'" (checkFormat name)
  | _, _ => .ok ()

/-- Whether hidden builds are wanted: the option that is given last decides. -/
def wantsHidden (given : List (Given ListOption)) : Bool :=
  let isChoice (g : Given ListOption) : Bool := g.1 == .includeHidden || g.1 == .excludeHidden
  match given.reverse.find? isChoice with
  | some (.excludeHidden, _) => false
  | _ => true

/-- The listing that options ask for. -/
def listCommand (t : FileTree) (given : List (Given ListOption)) (others : List String) :
    Except UsageError Command := do
  checkGiven (checkListOption t) given
  checkNoWords others
  let value := lastValue? given
  let filter : Filter :=
    { name := value .name, target := value .target, version := value .version, os := value .os
      architecture := value .architecture, publisher := value .publisher, vendor := value .vendor
      includeHidden := wantsHidden given }
  return .list ((value .directory).map Path.ofText) (value .imagePrefix) filter
    (((value .format).bind (List.lookup · formats)).getD .table)

/-! ## Publishing -/

/-- The options of publishing. -/
inductive UploadOption where
  | archive
  | destination
  | delay
  | config
  | help
  deriving DecidableEq, Repr

/-- The names of the options of publishing. -/
def uploadSwitches : List (Switch UploadOption) :=
  [⟨["--tar"], .archive, true⟩, ⟨["--to-repo"], .destination, true⟩,
    ⟨["--upload-delay"], .delay, true⟩, ⟨["--config"], .config, true⟩, ⟨["--help"], .help, false⟩]

/-- Refuses a value of an option of publishing. -/
def checkUploadOption (t : FileTree) : UploadOption → String → Except UsageError Unit
  | .archive, name => checking "'--tar'" (checkFile t name)
  | .delay, s => checking "'--upload-delay'" (checkNumber s)
  | .config, name => checking "'--config'" (checkFile t name)
  | _, _ => .ok ()

/-- The publishing that options ask for. -/
def uploadCommand (t : FileTree) (given : List (Given UploadOption)) (others : List String) :
    Except UsageError Command := do
  checkGiven (checkUploadOption t) given
  let value := lastValue? given
  match value .archive with
  | none => throw (.missingOption "--tar")
  | some archive =>
    checkNoWords others
    return .upload archive (value .destination)
      ((value .delay).bind fun s => Decimal.float? s.toList) ((value .config).map Path.ofText)

/-! ## Merging -/

/-- The option of merging. -/
inductive MergeOption where
  | help
  deriving DecidableEq, Repr

/-- The name of the option of merging. -/
def mergeSwitches : List (Switch MergeOption) := [⟨["--help"], .help, false⟩]

/-- The merging that words ask for. -/
def mergeCommand (t : FileTree) : List String → Except UsageError Command
  | [] => .error (.missingArgument "LOCAL_DB")
  | present :: rest => do
    checking "'LOCAL_DB'" (checkFile t present)
    match rest with
    | [] => throw (.missingArgument "INCOMING_DB")
    | incoming :: others =>
      checking "'INCOMING_DB'" (checkNoDirectory t incoming)
      checkNoWords others
      return .merge present incoming

/-! ## The program -/

/-- The options of the program. -/
inductive ProgramOption where
  | version
  | verbose
  | help
  deriving DecidableEq, Repr

/-- The names of the options of the program. -/
def programSwitches : List (Switch ProgramOption) :=
  [⟨["--version"], .version, false⟩, ⟨["--verbose", "-v"], .verbose, false⟩,
    ⟨["--help"], .help, false⟩]

/-- The commands by their names. -/
def places : List (String × Place) :=
  [("list", .list), ("upload-bundle", .upload), ("merge", .merge)]

/-- The first question about the program among the options. -/
def question? (given : List (Given ProgramOption)) : Option Invocation :=
  given.findSome? fun (option, _) => match option with
    | .version => some .showVersion
    | .help => some (.showUsage .program true)
    | .verbose => none

/-- A result at a place. -/
def atPlace {α : Type} (place : Place) (r : Except UsageError α) : Except Misuse α :=
  r.mapError fun e => ⟨place, e⟩

/-- What the words after the name of a command ask for. -/
def readCommand (t : FileTree) (place : Place) (words : List String) :
    Except UsageError (Option Command) := do
  match place with
  | .program => return none
  | .list =>
    let (given, others) ← readWords listSwitches true words
    if given.any (·.1 == .help) then return none
    return some (← listCommand t given others)
  | .upload =>
    let (given, others) ← readWords uploadSwitches true words
    if given.any (·.1 == .help) then return none
    return some (← uploadCommand t given others)
  | .merge =>
    let (given, others) ← readWords mergeSwitches true words
    if given.any (·.1 == .help) then return none
    return some (← mergeCommand t others)

/-- What the words of a command line ask for. The name of a command that looks like an option is
read as one before it is refused. -/
def Invocation.ofWords (t : FileTree) (words : List String) : Except Misuse Invocation := do
  if words.isEmpty then return .showUsage .program false
  let (given, others) ← atPlace .program (readWords programSwitches false words)
  if let some question := question? given then return question
  match others with
  | [] => throw ⟨.program, .noCommand⟩
  | name :: rest =>
    match places.lookup name with
    | some place =>
      match ← atPlace place (readCommand t place rest) with
      | some command => return .run (given.any (·.1 == .verbose)) command
      | none => return .showUsage place true
    | none =>
      if isOption name then
        let (given, _) ← atPlace .program (readWords programSwitches false others)
        if let some question := question? given then return question
      throw ⟨.program, .noSuchCommand name⟩

end PluginCatalog.CommandLine
