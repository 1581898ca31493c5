/-!
# Terminal codes

* `Text.withoutCodes s` leaves out the codes that change the look of a terminal: an escape
  character and a bracket, parameters, and a letter. What is printed does not go to a terminal.
-/

namespace PluginCatalog.Text

/-- Whether a character is a parameter of a code. -/
def isParameter (c : Char) : Bool := c == ';' || c == '?' || c.isDigit

/-- The text after the parameters and the letter of a code, if it is one. -/
def afterCode? (cs : List Char) : Option { r : List Char // r.length < cs.length } :=
  match h : cs.dropWhile isParameter with
  | [] => none
  | c :: rest =>
    if c.isAlpha then
      have shorter : rest.length < cs.length := by
        have le := (List.dropWhile_sublist isParameter (l := cs)).length_le
        rw [h, List.length_cons] at le
        omega
      some ⟨rest, shorter⟩
    else none

/-- A text without codes. -/
def dropCodes : List Char → List Char
  | [] => []
  | '\x1b' :: '[' :: rest =>
    match afterCode? rest with
    | some ⟨more, _⟩ => dropCodes more
    | none => '\x1b' :: dropCodes ('[' :: rest)
  | c :: rest => c :: dropCodes rest
termination_by cs => cs.length
decreasing_by
  · exact Nat.lt_add_right 1 (Nat.lt_add_right 1 ‹_›)
  · exact Nat.lt_add_one _
  · exact Nat.lt_add_one _

/-- A string without codes. -/
def withoutCodes (s : String) : String := String.ofList (dropCodes s.toList)

example : withoutCodes "a\x1b[1;31mb\x1b[c" = "ab" := by cbv

end PluginCatalog.Text
