import PluginCatalog.Fault

/-!
# Tokens of YAML

* `Yaml.Token` are the pieces of a YAML text. Layout has become tokens of its own: where a block
  collection starts and ends, and which scalars are keys.
* `Yaml.Error` says why a text gives no values: it is malformed, or a scalar of it causes a fault.
-/

namespace PluginCatalog.Yaml

/-- Why a text gives no values. -/
inductive Error where
  /-- The text breaks the rules of the language. -/
  | malformed
  /-- A piece of it denotes no value. -/
  | fault (cause : Fault)
  deriving DecidableEq, Repr

/-- A directive in front of a document. -/
inductive Directive where
  /-- The version of the language, of which the first number counts. -/
  | version (major : Nat)
  /-- What a handle of tags stands for. -/
  | tagHandle (handle expansion : String)
  | other
  deriving DecidableEq, Repr

/-- A piece of a YAML text. -/
inductive Token where
  | directive (d : Directive)
  | documentStart
  | documentEnd
  | blockSequenceStart
  | blockMappingStart
  | blockEnd
  | flowSequenceStart
  | flowSequenceEnd
  | flowMappingStart
  | flowMappingEnd
  /-- The hyphen in front of an item. -/
  | blockEntry
  /-- The comma between items. -/
  | flowEntry
  /-- What follows is a key. -/
  | key
  /-- What follows is the value of a key. -/
  | value
  | alias (name : String)
  | anchor (name : String)
  /-- A tag; the handle is absent where the tag is written out. -/
  | tag (handle : Option String) (suffix : String)
  /-- A scalar; `plain` if it stands without quotes or block indicator. -/
  | scalar (text : String) (plain : Bool)
  | streamEnd
  deriving DecidableEq, Repr

end PluginCatalog.Yaml
