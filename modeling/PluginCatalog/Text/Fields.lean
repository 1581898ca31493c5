/-!
# Fields of a text

* `Text.fields sep cs` cuts `cs` at every `sep`: there is one field more than there are
  separators, and joining the fields with `sep` gives the text back (`unfields_fields`).
* `Text.joined sep parts` joins strings.
-/

namespace PluginCatalog.Text

/-- The pieces of a text between separators; the empty text is one empty piece. -/
def fields (sep : Char) : List Char → List (List Char)
  | [] => [[]]
  | c :: cs =>
    if c = sep then [] :: fields sep cs
    else match fields sep cs with
      | [] => [[c]]
      | f :: fs => (c :: f) :: fs

theorem fields_ne_nil (sep : Char) (cs : List Char) : fields sep cs ≠ [] := by
  cases cs with
  | nil => simp [fields]
  | cons c cs =>
    rw [fields]
    split
    · simp
    · split <;> simp

/-- Fields written one after the other, with the separator between any two. -/
def unfields (sep : Char) : List (List Char) → List Char
  | [] => []
  | [f] => f
  | f :: fs => f ++ sep :: unfields sep fs

/-- Joining the fields of a text gives the text back. -/
theorem unfields_fields (sep : Char) (cs : List Char) : unfields sep (fields sep cs) = cs := by
  induction cs with
  | nil => rfl
  | cons c cs ih =>
    rw [fields]
    cases h : fields sep cs with
    | nil => exact absurd h (fields_ne_nil sep cs)
    | cons f fs =>
      rw [h] at ih
      by_cases hc : c = sep
      · simp [hc, unfields, ih]
      · cases fs with
        | nil => simp [hc, unfields, ← ih]
        | cons g gs => simp [hc, unfields, ← ih]

/-- The strings one after the other, with `sep` between any two. -/
def joined (sep : String) : List String → String
  | [] => ""
  | [s] => s
  | s :: rest => s ++ sep ++ joined sep rest

end PluginCatalog.Text
