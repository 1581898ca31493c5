import PluginCatalog.Fault
import PluginCatalog.Inventory.Entry
import PluginCatalog.Inventory.Filter

/-!
# Queries

* `aggregate` makes the entries of rows. Rows whose version is no written version are left out,
  with a remark; another remark says that the texts of a plugin change from row to row.
* `query` are the entries of the rows that a filter admits. Where it asks for the recommended
  version, the rows of the general filter are aggregated first, and the rows at the version
  recommended there are aggregated again, after the criteria of platform.
* `faultOf` says when there is no answer: a version has an overlong number, or a row without
  address is to be resolved; `mixedNames` is the third case, in which names cannot be ordered.
-/

namespace PluginCatalog

/-- What is remarked while rows are aggregated. -/
inductive Remark where
  /-- A row is left out, because its version is no written version. -/
  | skipped (name os architecture version : Option String)
  /-- The texts of a plugin are not those of its row before. -/
  | inconsistent (name : Option String)
  deriving DecidableEq, Repr

/-- A text of a row in a message. -/
def shownText (text : Option String) : String := text.getD "None"

/-- The wording of a remark. -/
def Remark.message : Remark → String
  | skipped name os architecture version =>
    s!"Skipping plugin '{shownText name}' ({shownText os}/{shownText architecture}): "
      ++ s!"invalid version '{shownText version}'"
  | inconsistent name =>
    s!"Plugin '{shownText name}' has inconsistent metadata across versions; using the last seen"

/-! ## Remarks and faults -/

/-- Whether the texts of two rows differ. -/
def textsDiffer (r s : ReadRow) : Bool :=
  r.description != s.description || r.publisher != s.publisher || r.vendor != s.vendor

/-- The remark on a row that has a version, after the rows before it, the nearest one first. -/
def remarkOn (before : List ReadRow) (r : ReadRow) : List Remark :=
  match before.find? (entryKey · == entryKey r) with
  | some s => if textsDiffer s r then [.inconsistent r.name] else []
  | none => []

/-- The fault of a row, if there is one: it has an overlong number, or no address to resolve. -/
def faultOf (imagePrefix : String) (r : ReadRow) : Option Fault :=
  match Version.isWritten r.version with
  | .error _ => some .overlongNumber
  | .ok true => if r.uri.isNone && !imagePrefix.isEmpty then some .notText else none
  | .ok false => none

/-- The remarks on rows up to the first fault, and that fault; `before` are the rows with a version
that come before, the nearest one first. -/
def survey (imagePrefix : String) : List ReadRow → List ReadRow → List Remark × Option Fault
  | _, [] => ([], none)
  | before, r :: rest =>
    let remarks :=
      match Version.isWritten r.version with
      | .ok true => remarkOn before r
      | .ok false => [.skipped r.name r.os r.architecture r.version]
      | .error _ => []
    match faultOf imagePrefix r with
    | some fault => (remarks, some fault)
    | none =>
      let (more, fault) := survey imagePrefix (if hasVersion r then r :: before else before) rest
      (remarks ++ more, fault)

/-! ## Answers -/

/-- What a query gives: remarks, and entries or a fault. -/
abbrev Answer := List Remark × Except Fault (List Entry)

/-- Whether some names are absent and others not, so that the entries have no order. -/
def mixedNames (es : List Entry) : Bool := es.any (·.name.isNone) && es.any (·.name.isSome)

/-- The entries of rows, with the remarks on the way. -/
def aggregate (imagePrefix : String) (rows : List ReadRow) : Answer :=
  match survey imagePrefix [] rows with
  | (remarks, some fault) => (remarks, .error fault)
  | (remarks, none) =>
    let es := entries imagePrefix (rows.filter hasVersion)
    (remarks, if mixedNames es then .error .mixedKinds else .ok es)

/-- The version that entries recommend for the plugin and target of a row. -/
def recommendedFor (es : List Entry) (r : ReadRow) : Option String :=
  (es.find? fun e => e.name == r.name && e.target == (entryKey r).target).map (·.recommended)

/-- Whether a row is at the version that entries recommend for it. -/
def isRecommended (es : List Entry) (r : ReadRow) : Bool := r.version == recommendedFor es r

/-- The entries of rows at the recommended versions, after the criteria of platform. -/
def queryLatest (imagePrefix : String) (f : Filter) (rows : List ReadRow) : Answer :=
  let candidates := rows.filter f.general.admits
  match aggregate imagePrefix candidates with
  | (remarks, .error fault) => (remarks, .error fault)
  | (remarks, .ok es) =>
    let (more, answer) :=
      aggregate imagePrefix (candidates.filter fun r => isRecommended es r && f.admitsPlatform r)
    (remarks ++ more, answer)

/-- The entries of the rows that a filter admits. -/
def query (imagePrefix : String) (f : Filter) (rows : List ReadRow) : Answer :=
  if f.version = some Filter.latest then queryLatest imagePrefix f rows
  else aggregate imagePrefix (rows.filter f.admits)

end PluginCatalog
