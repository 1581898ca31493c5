import PluginCatalog.DocumentFile
import PluginCatalog.Failure

/-!
# Settings

Settings come from a file and from the environment, which wins.

* `Settings.ofFile` reads a file, `Settings.override` applies the environment, and `Settings.load`
  does both, looking for the file where the environment says.
* `seconds` is the duration that a value denotes: a number that is not below zero, or the text of
  one.
* `configPath?` and `inventoryDirectory` are the places that the environment names, below the home
  directory if it names none.
* `Host` is what the system gives: the home directory of the user, and how to wait.
-/

namespace PluginCatalog

/-- What is given by the system on which the program runs. -/
structure Host where
  /-- The home directory of the user. -/
  home : String := ""
  /-- Waits for a number of seconds, or refuses to. -/
  sleep : Float → Except Fault Unit := fun _ => .ok ()

/-- The variables of the environment. -/
abbrev Environment := List (String × String)

namespace Environment

/-- The value of a variable that is set and not empty. -/
def given? (env : Environment) (name : String) : Option String :=
  (env.lookup name).filter (!·.isEmpty)

/-- The home directory: the one that is set, or else the one of the user. Slashes at its end say
nothing, and without a name it is the root. -/
def home (env : Environment) (host : Host) : Path :=
  let name := (env.lookup "HOME").getD host.home
  let kept := (name.toList.reverse.dropWhile (· == '/')).reverse
  if kept.isEmpty then "/" else String.ofList kept

end Environment

/-- How bundles are published. -/
structure Settings where
  /-- The repository, whatever kind of value the file gives. -/
  destination : Value
  /-- The pause between images, in seconds. -/
  delay : Float
  /-- The program that transfers images, whatever kind of value the file gives. -/
  executable : Value
  /-- The time limit of the program, in seconds. -/
  limit : Option Float

namespace Settings

/-- The usual pause between images. -/
def usualDelay : Float := 3

/-- The usual program. -/
def usualExecutable : String := "imgpkg"

/-- The settings where nothing is given. -/
def usual : Settings :=
  { destination := .null, delay := usualDelay, executable := .text usualExecutable, limit := none }

/-! ## Durations -/

/-- The double that a value denotes; nothing if it denotes none, and a fault if it is an integer
beyond all doubles. -/
def toFloat? : Value → Except Fault (Option Float)
  | .bool b => .ok (some (if b then 1 else 0))
  | .int n =>
    match Decimal.ofInt? n with
    | some x => .ok (some x)
    | none => .error .numberTooLarge
  | .float x => .ok (some x)
  | .text s => .ok (Decimal.float? s.toList)
  | .bytes bs =>
    .ok (if bs.all (· < 128) then Decimal.float? (bs.map fun b => Char.ofNat b.toNat) else none)
  | _ => .ok none

/-- An error with a value in it. -/
def refuse {α : Type} (e : String → ConfigError) (v : Value) : Except Failure α :=
  match v.literal? with
  | some literal => .error (.config (e literal))
  | none => .error (.fault .overlongNumber)

/-- The duration that a value denotes, for the setting of the given name. -/
def seconds (name : String) (v : Value) : Except Failure Float :=
  match toFloat? v with
  | .error cause => .error (.fault cause)
  | .ok none => refuse (.notSeconds name) v
  | .ok (some x) => if x < 0 then refuse (.negativeSeconds name) v else .ok x

/-! ## Sources -/

/-- The settings of the entries of a mapping. -/
def ofEntries (entries : List (Value × Value)) : Except Failure Settings := do
  let delay ← seconds "upload_delay"
    ((Value.lookup? "upload_delay" entries).getD (.float usualDelay))
  let executable := (Value.lookup? "imgpkg_path" entries).filter (·.isTruthy)
  let limit ← match Value.lookup? "imgpkg_timeout" entries with
    | none | some .null => pure none
    | some v => some <$> seconds "imgpkg_timeout" v
  return {
    destination := (Value.lookup? "destination_repo" entries).getD .null
    delay
    executable := executable.getD (.text usualExecutable)
    limit }

/-- The settings of the document in a file; an empty document is an empty mapping. -/
def ofFile (t : FileTree) (p : Path) : Except Failure Settings :=
  match readDocument t p with
  | .error .missing => .error (.config (.missing p))
  | .error .malformed => .error (.config (.invalidYaml p))
  | .error (.fault cause) => .error (.fault cause)
  | .ok .null => ofEntries []
  | .ok (.map entries) => ofEntries entries
  | .ok _ => .error (.config (.notAMapping p))

/-- The settings with those of the environment in their place. -/
def override (env : Environment) (s : Settings) : Except Failure Settings := do
  let executable := ((env.given? "PLUGIN_INVENTORY_IMGPKG").map Value.text).getD s.executable
  let delay ← match env.given? "PLUGIN_INVENTORY_UPLOAD_DELAY" with
    | none => pure s.delay
    | some text => seconds "PLUGIN_INVENTORY_UPLOAD_DELAY" (.text text)
  return { s with executable, delay }

end Settings

/-- The file of settings that the environment names, if there is one. -/
def configPath? (env : Environment) (t : FileTree) (host : Host := {}) : Option Path :=
  let path : Path :=
    match env.given? "PLUGIN_INVENTORY_CONFIG" with
    | some path => path
    | none => env.home host / ".config/plugin-inventory/config.yaml"
  if t.pathExists path then some path else none

/-- The directory of the local inventory. -/
def inventoryDirectory (env : Environment) (host : Host := {}) : Path :=
  match env.given? "PLUGIN_INVENTORY_DIR" with
  | some path => path
  | none => env.home host / ".local/share/plugin-inventory"

/-- The settings of the given file, or else of the one that the environment names. -/
def Settings.load (env : Environment) (t : FileTree) (config : Option Path) (host : Host := {}) :
    Except Failure Settings := do
  let s ← match config <|> configPath? env t host with
    | some path => ofFile t path
    | none => pure usual
  s.override env

end PluginCatalog
