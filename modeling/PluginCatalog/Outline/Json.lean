import PluginCatalog.Outline
import PluginCatalog.Text.Hex

/-!
# Outlines in JSON

* `Outline.json` prints an outline as JSON text: every item and field on a line of its own,
  indented by two blanks per level, and empty collections in one piece.
* `Json.quoted` quotes a text in ASCII: other characters are written by the numbers of their
  16-bit units.
-/

namespace PluginCatalog

namespace Json

/-! ## Texts -/

/-- The 16-bit units of a character. -/
def units (c : Char) : List Nat :=
  let n := c.toNat
  if n < 0x10000 then [n]
  else [0xd800 + (n - 0x10000) / 0x400, 0xdc00 + (n - 0x10000) % 0x400]

/-- A unit by its number. -/
def numbered (n : Nat) : List Char := '\\' :: 'u' :: Text.hex false 4 n

/-- A character between quotes. -/
def quotedChar (c : Char) : List Char :=
  if c = '"' ∨ c = '\\' then ['\\', c]
  else if c = '\n' then ['\\', 'n']
  else if c = '\r' then ['\\', 'r']
  else if c = '\t' then ['\\', 't']
  else if c = '\x08' then ['\\', 'b']
  else if c = '\x0c' then ['\\', 'f']
  else if ' ' ≤ c ∧ c ≤ '~' then [c]
  else (units c).flatMap numbered

/-- A text between quotes. -/
def quoted (s : String) : List Char := '"' :: s.toList.flatMap quotedChar ++ ['"']

example : String.ofList (quoted "é\t🚀") = "\"\\u00e9\\t\\ud83d\\ude80\"" := by decide +kernel

/-! ## Collections -/

/-- A new line with its indentation. -/
def newLine (indent : Nat) : List Char := '\n' :: List.replicate indent ' '

/-- Items between brackets, each on a line of its own. -/
def bracketed (left right : Char) (indent : Nat) : List (List Char) → List Char
  | [] => [left, right]
  | item :: rest =>
    let line (item : List Char) := newLine (indent + 2) ++ item
    left :: line item ++ rest.flatMap (fun item => ',' :: line item) ++ newLine indent ++ [right]

mutual

/-- An outline on a line with the given indentation. -/
def written (indent : Nat) : Outline → List Char
  | .absent => "null".toList
  | .text s => quoted s
  | .list items => bracketed '[' ']' indent (writtenItems (indent + 2) items)
  | .record fields => bracketed '\x7b' '\x7d' indent (writtenFields (indent + 2) fields)

/-- The items of a list. -/
def writtenItems (indent : Nat) : List Outline → List (List Char)
  | [] => []
  | item :: rest => written indent item :: writtenItems indent rest

/-- The fields of a record, with their names. -/
def writtenFields (indent : Nat) : List (String × Outline) → List (List Char)
  | [] => []
  | (name, v) :: rest =>
    (quoted name ++ ':' :: ' ' :: written indent v) :: writtenFields indent rest

end

end Json

/-- The JSON text of an outline. -/
def Outline.json (o : Outline) : String := String.ofList (Json.written 0 o)

end PluginCatalog
