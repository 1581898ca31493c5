/-!
# Blank characters and the ends of a text

The blank characters are those that Unicode calls white space or that separate lines, blocks or
records of text.

* `Text.strip cs` is `cs` without the blank characters at its two ends. A text that neither starts
  nor ends with a blank is left alone (`strip_eq_self`).
* `Text.stripped` is the same on strings.
-/

namespace PluginCatalog.Text

/-- The blank characters: white space, the four separators of ASCII and the next-line control. -/
def isBlank (c : Char) : Bool :=
  let n := c.toNat
  (9 ≤ n && n ≤ 13) || (28 ≤ n && n ≤ 32) || n == 0x85 || n == 0xa0 || n == 0x1680
    || (0x2000 ≤ n && n ≤ 0x200a) || n == 0x2028 || n == 0x2029 || n == 0x202f || n == 0x205f
    || n == 0x3000

/-- The text from its first character that is not blank on. -/
def stripStart (cs : List Char) : List Char := cs.dropWhile isBlank

/-- The text up to its last character that is not blank. -/
def stripEnd (cs : List Char) : List Char := (cs.reverse.dropWhile isBlank).reverse

/-- The text without the blank characters at its two ends. -/
def strip (cs : List Char) : List Char := stripEnd (stripStart cs)

/-- The string without the blank characters at its two ends. -/
def stripped (s : String) : String := String.ofList (strip s.toList)

theorem stripStart_eq_self (cs : List Char) (h : ∀ c, cs.head? = some c → isBlank c = false) :
    stripStart cs = cs := by
  cases cs with
  | nil => rfl
  | cons c r => simp [stripStart, h c rfl]

theorem stripEnd_eq_self {cs : List Char} (h : ∀ c, cs.getLast? = some c → isBlank c = false) :
    stripEnd cs = cs := by
  have := stripStart_eq_self (cs.reverse) (by simpa using h)
  simpa [stripEnd, stripStart] using congrArg List.reverse this

theorem stripEnd_isPrefix (cs : List Char) : stripEnd cs <+: cs := by
  have := (List.dropWhile_suffix (l := cs.reverse) isBlank).reverse
  simpa [stripEnd] using this

/-- A text that neither starts nor ends with a blank is left alone. -/
theorem strip_eq_self {cs : List Char} (h₁ : ∀ c, cs.head? = some c → isBlank c = false)
    (h₂ : ∀ c, cs.getLast? = some c → isBlank c = false) : strip cs = cs := by
  rw [strip, stripStart_eq_self cs h₁, stripEnd_eq_self h₂]

end PluginCatalog.Text
