import PluginCatalog.DocumentFile
import PluginCatalog.Failure
import PluginCatalog.Target

/-!
# Recommendations of resources

A file of resources recommends versions of plugins: one document for each plugin, of a kind of its
own, among documents of other kinds.

* `recommendationsOf` are the recommendations of documents for a target, in their order; a plugin
  without a target is recommended for all of them, and the empty target asks for all plugins.
* `recommendationsAt` are those of the documents in a file.
-/

namespace PluginCatalog

/-- The kind of the resources that recommend plugins. -/
def pluginKind : String := "CLIPlugin"

/-- A name and a version, whatever kinds of values the document gives. -/
abbrev Recommendation := Value × Value

/-- The entries of a field that holds a mapping; one that is not true is an empty mapping. -/
def mappingField (key : String) (entries : List (Value × Value)) :
    Except Fault (List (Value × Value)) :=
  match (Value.lookup? key entries).filter (·.isTruthy) with
  | none => .ok []
  | some (.map fields) => .ok fields
  | some _ => .error .notAMapping

/-- Whether a plugin of the given target is for the target asked for. -/
def isFor (asked : String) (v : Value) : Except Fault Bool :=
  let admits (target : String) := asked.isEmpty || target.isEmpty || target == Target.normalize asked
  match v with
  | .null => .ok true
  | .text s => .ok (admits (Target.normalize s))
  | .bytes bs => .ok (asked.isEmpty || bs.isEmpty)
  | _ => .error .notText

/-- The recommendation of a plugin resource, if it is for the target asked for. -/
def recommendationOf (path : Path) (asked : String) (entries : List (Value × Value)) :
    Except Failure (Option Recommendation) := do
  let metadata ← (mappingField "metadata" entries).mapError .fault
  match (Value.lookup? "name" metadata).filter (·.isTruthy) with
  | none => throw (.discovery (.nameless path))
  | some name =>
    let spec ← (mappingField "spec" entries).mapError .fault
    let wanted ← (isFor asked ((Value.lookup? "target" spec).getD (.text ""))).mapError .fault
    if wanted then return some (name, (Value.lookup? "recommendedVersion" spec).getD (.text ""))
    else return none

/-- Whether a document is a mapping of the kind of plugin resources, and its entries. -/
def resource? : Value → Option (List (Value × Value))
  | .map entries =>
    match Value.lookup? "kind" entries with
    | some (.text kind) => if kind = pluginKind then some entries else none
    | _ => none
  | _ => none

/-- The recommendations of documents for a target, in their order. -/
def recommendationsOf (path : Path) (asked : String) (documents : List Value) :
    Except Failure (List Recommendation) := do
  return (← (documents.filterMap resource?).mapM (recommendationOf path asked)).filterMap id

/-- The recommendations of the documents in a file for a target. -/
def recommendationsAt (t : FileTree) (path : Path) (asked : String) :
    Except Failure (List Recommendation) :=
  match readDocuments t path with
  | .error .missing => .error (.discovery (.missing path))
  | .error .malformed => .error (.discovery (.invalidYaml path))
  | .error (.fault cause) => .error (.fault cause)
  | .ok documents => recommendationsOf path asked documents

end PluginCatalog
