/-!
# Occurrences of a word

* `Text.occurs word cs` tells whether `word` stands somewhere in `cs`: `cs` is the word between two
  texts (`occurs_iff`).
-/

namespace PluginCatalog.Text

/-- Whether a word stands somewhere in a text. -/
def occurs (word : List Char) : List Char → Bool
  | [] => word.isEmpty
  | c :: cs => word.isPrefixOf (c :: cs) || occurs word cs

/-- A word occurs exactly where the text is the word between two texts. -/
theorem occurs_iff {word cs : List Char} : occurs word cs = true ↔ word <:+: cs := by
  induction cs with
  | nil => cases word <;> simp [occurs]
  | cons c cs ih => simp [occurs, ih, List.infix_cons_iff]

end PluginCatalog.Text
