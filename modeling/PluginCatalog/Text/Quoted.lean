import PluginCatalog.Text.Hex
import PluginCatalog.Text.Printable

/-!
# Quoted text

How messages show a text so that every character can be told.

* `Text.quoted s` stands in single quotes, or in double quotes if it holds single quotes and no
  double ones. A backslash goes before the quote in use and before a backslash; line feed,
  carriage return and tab have letters; other characters that cannot be shown have their number.
* `Text.quotedBytes bs` shows bytes in the same way, with the letter `b` in front.
-/

namespace PluginCatalog.Text

/-- The quote for a text: the double quote when this saves backslashes. -/
def quoteFor (cs : List Char) : Char :=
  if cs.contains '\'' && !cs.contains '"' then '"' else '\''

/-- The number of a character that cannot be shown, in the shortest of three widths. -/
def numbered (n : Nat) : List Char :=
  if n < 0x100 then '\\' :: 'x' :: hex false 2 n
  else if n < 0x10000 then '\\' :: 'u' :: hex false 4 n
  else '\\' :: 'U' :: hex false 8 n

/-- One character between quotes `quote`. -/
def quotedChar (quote c : Char) : List Char :=
  if c = quote ∨ c = '\\' then ['\\', c]
  else if c = '\n' then ['\\', 'n']
  else if c = '\r' then ['\\', 'r']
  else if c = '\t' then ['\\', 't']
  else if isPrintable c then [c]
  else numbered c.toNat

/-- The text between quotes. -/
def quoted (s : String) : String :=
  let quote := quoteFor s.toList
  String.ofList (quote :: s.toList.flatMap (quotedChar quote) ++ [quote])

/-- The bytes between quotes, after the letter `b`; bytes beyond ASCII have their number. -/
def quotedBytes (bs : List UInt8) : String :=
  let cs := bs.map fun b => Char.ofNat b.toNat
  let quote := quoteFor cs
  let shown (c : Char) := if c.toNat < 128 then quotedChar quote c else numbered c.toNat
  String.ofList ('b' :: quote :: cs.flatMap shown ++ [quote])

example : quoted "it's" = "\"it's\"" := by decide
example : quoted "a\tb\x00é\u200b" = "'a\\tb\\x00é\\u200b'" := by decide +kernel

end PluginCatalog.Text
