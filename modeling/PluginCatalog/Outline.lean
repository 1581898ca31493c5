/-!
# Outlines

What is printed about the catalogue in a general format is a tree of texts.

* `Outline` is such a tree: texts, which may be absent, lists, and records of named fields.
-/

namespace PluginCatalog

/-- A tree of texts that is to be printed. -/
inductive Outline where
  | absent
  | text (s : String)
  | list (items : List Outline)
  /-- The fields of a record in the order in which they are printed. -/
  | record (fields : List (String × Outline))
  deriving Inhabited

/-- A text that may be absent. -/
def Outline.ofOption : Option String → Outline
  | none => absent
  | some s => text s

end PluginCatalog
