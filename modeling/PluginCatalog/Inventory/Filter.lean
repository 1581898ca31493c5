import PluginCatalog.Store.Table

/-!
# Filters

* `Filter` says which rows are wanted; a criterion that is absent or empty is met by every row.
* `Filter.admits f r` tells whether a row meets all criteria, the version among them.
* `Filter.latest` is the version that stands for the recommended one of each plugin, and
  `Filter.general` is a filter without its criteria of version and platform.
-/

namespace PluginCatalog

/-- Which rows are wanted. -/
structure Filter where
  name : Option String := none
  target : Option String := none
  version : Option String := none
  os : Option String := none
  architecture : Option String := none
  publisher : Option String := none
  vendor : Option String := none
  includeHidden : Bool := true
  deriving DecidableEq, Repr

namespace Filter

/-- Whether a criterion is set. -/
def isSet (criterion : Option String) : Bool := criterion.any (!·.isEmpty)

/-- Whether a text of a row meets a criterion. -/
def meets (criterion cell : Option String) : Bool := !isSet criterion || cell == criterion

/-- Whether the target of a row meets a criterion: any spelling of the target wanted does. -/
def meetsTarget (criterion cell : Option String) : Bool :=
  !isSet criterion ||
    match criterion, cell with
    | some t, some s => (Target.spellings t).contains s
    | _, _ => false

/-- Whether a row meets the criteria of platform. -/
def admitsPlatform (f : Filter) (r : ReadRow) : Bool :=
  meets f.os r.os && meets f.architecture r.architecture

/-- Whether a row meets all criteria. -/
def admits (f : Filter) (r : ReadRow) : Bool :=
  meets f.name r.name && meetsTarget f.target r.target && meets f.publisher r.publisher
    && meets f.vendor r.vendor && meets f.version r.version && f.admitsPlatform r
    && (f.includeHidden || !r.hidden)

/-- The version that stands for the recommended one. -/
def latest : String := "latest"

/-- The filter without criteria of version and platform. -/
def general (f : Filter) : Filter := { f with version := none, os := none, architecture := none }

end Filter

end PluginCatalog
