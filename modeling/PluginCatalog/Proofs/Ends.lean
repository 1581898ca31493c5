import Mathlib.Data.List.DropRight
import PluginCatalog.Text.Blank

/-!
# The ends of texts

Texts are cut at their ends: blanks around versions and targets, slashes around paths.

* `rdropWhile_dropWhile`: the two ends of a list can be cut in either order.
* `Text.strip_around`: blanks around a text are stripped with its own.
-/

namespace PluginCatalog

/-! ## The ends of a list -/

section Ends

variable {α : Type} {p : α → Bool}

theorem rdropWhile_append (l m : List α) : (l ++ m).rdropWhile p =
    if (m.rdropWhile p).isEmpty then l.rdropWhile p else l ++ m.rdropWhile p := by
  unfold List.rdropWhile
  rw [List.reverse_append, List.dropWhile_append, List.isEmpty_reverse]
  split
  · rfl
  · rw [List.reverse_append, List.reverse_reverse]

/-- The two ends of a list can be cut in either order. -/
theorem rdropWhile_dropWhile (l : List α) :
    (l.dropWhile p).rdropWhile p = (l.rdropWhile p).dropWhile p := by
  induction l with
  | nil => rfl
  | cons a l ih =>
    rw [← List.singleton_append, rdropWhile_append]
    by_cases ha : p a
    · rw [List.singleton_append, List.dropWhile_cons_of_pos ha, ih]
      split
      next hl => rw [List.isEmpty_iff.1 hl, List.rdropWhile_singleton, if_pos ha]
      · rw [List.singleton_append, List.dropWhile_cons_of_pos ha]
    · rw [List.singleton_append, List.dropWhile_cons_of_neg ha, ← List.singleton_append,
        rdropWhile_append, List.rdropWhile_singleton, if_neg ha]
      split
      · rw [List.dropWhile_cons_of_neg ha]
      · rw [List.singleton_append, List.dropWhile_cons_of_neg ha]

end Ends

/-! ## Blanks around a text -/

namespace Text

/-- The blanks at the end can be stripped first. -/
theorem strip_eq (cs : List Char) : strip cs = stripStart (stripEnd cs) := rdropWhile_dropWhile cs

/-- Blanks around a text are stripped. -/
theorem strip_around {before after : List Char} (hbefore : ∀ c ∈ before, isBlank c)
    (hafter : ∀ c ∈ after, isBlank c) (cs : List Char) :
    strip (before ++ cs ++ after) = strip cs := by
  have hstart : stripStart (before ++ cs) = stripStart cs :=
    List.dropWhile_append_of_pos hbefore
  have hend : stripEnd (before ++ cs ++ after) = stripEnd (before ++ cs) := by
    unfold stripEnd
    rw [List.reverse_append, List.dropWhile_append_of_pos]
    exact fun c hc => hafter c (List.mem_reverse.1 hc)
  calc strip (before ++ cs ++ after)
    _ = stripStart (stripEnd (before ++ cs)) := by rw [strip_eq, hend]
    _ = stripEnd (stripStart (before ++ cs)) := (strip_eq _).symm
    _ = strip cs := by rw [hstart, strip]

/-- A text without blanks is left alone. -/
theorem strip_of_forall {cs : List Char} (h : ∀ c ∈ cs, isBlank c = false) : strip cs = cs :=
  strip_eq_self (fun c hc => h c (List.mem_of_mem_head? hc))
    fun c hc => h c (List.mem_of_mem_getLast? hc)

end Text

end PluginCatalog
