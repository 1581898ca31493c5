import PluginCatalog.CommandLine

/-!
# The program

`main` runs the command line on the files that its words and the environment name. These files are
read as texts, and nothing is written: there is no image tool at hand, so that a bundle is checked
but not published.
-/

namespace PluginCatalog.Main

/-- The variables of the environment that matter. -/
def variableNames : List String :=
  ["HOME", "PLUGIN_INVENTORY_CONFIG", "PLUGIN_INVENTORY_DIR", "PLUGIN_INVENTORY_IMGPKG",
    "PLUGIN_INVENTORY_UPLOAD_DELAY"]

/-- The environment. -/
def environment : IO Environment :=
  variableNames.filterMapM fun name => do return (← IO.getEnv name).map (name, ·)

/-- The names of files that a word may give: the word itself, or what follows an equality sign. -/
def namedBy (word : String) : List String :=
  let value := (word.toList.dropWhile (· != '=')).drop 1
  let names := if value.isEmpty then [word] else [word, String.ofList value]
  names.flatMap fun name => [name, (Path.ofText name / Inventory.storeName).text]

/-- The names of all files that may matter. -/
def candidates (env : Environment) (words : List String) : List String :=
  let settings := env.home {} / ".config/plugin-inventory/config.yaml"
  let store := inventoryDirectory env / Inventory.storeName
  words.flatMap namedBy ++ (env.given? "PLUGIN_INVENTORY_CONFIG").toList
    ++ [settings.text, store.text]

/-- The files with a file of a name, if it can be read. -/
def withFile (t : FileTree) (name : String) : IO FileTree := do
  try
    return t.placeFile name (.data (.text (← IO.FS.readFile name)))
  catch _ => return t

/-- The program that transfers images: there is none. -/
def noTool : Program Unit := fun _ t state => (.notStarted "no such program", t, state)

end PluginCatalog.Main

open PluginCatalog PluginCatalog.Main in
/-- Runs the program for the words of the command line. -/
def main (words : List String) : IO UInt32 := do
  let env ← environment
  let here : FileTree := ⟨["work"], [(["work"], .directory)]⟩
  let t ← (candidates env words).foldlM withFile here
  let (outcome, _) := CommandLine.run env noTool "/scratch" words ⟨t, [], ()⟩
  IO.print outcome.stdout
  IO.eprint outcome.stderr
  return outcome.exitCode.toUInt32
