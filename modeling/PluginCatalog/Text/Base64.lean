/-!
# Base 64

* `Text.base64? cs` are the bytes that a text in base 64 stands for. Characters outside the
  alphabet are passed over; the text ends with its padding. It stands for nothing if its last group
  is incomplete and not padded.
-/

namespace PluginCatalog.Text

/-- The six bits of a character of the alphabet. -/
def sextet? (c : Char) : Option Nat :=
  if 'A' ≤ c ∧ c ≤ 'Z' then some (c.toNat - 65)
  else if 'a' ≤ c ∧ c ≤ 'z' then some (c.toNat - 71)
  else if '0' ≤ c ∧ c ≤ '9' then some (c.toNat + 4)
  else if c = '+' then some 62
  else if c = '/' then some 63
  else none

/-- The bytes of the rest of a text, where `count` characters of a group with the left over bits
`bits`, and `pads` signs of padding right before, have been read. -/
def base64From (count bits pads : Nat) : List Char → Option (List UInt8)
  | [] => if count = 0 then some [] else none
  | c :: rest =>
    if c = '=' then
      if count < 2 then base64From count bits pads rest
      else if 4 ≤ count + pads + 1 then some []
      else base64From count bits (pads + 1) rest
    else match sextet? c with
      | none => base64From count bits pads rest
      | some v =>
        match count with
        | 0 => base64From 1 v 0 rest
        | 1 => (base64From 2 (v % 16) 0 rest).map (UInt8.ofNat (bits * 4 + v / 16) :: ·)
        | 2 => (base64From 3 (v % 4) 0 rest).map (UInt8.ofNat (bits * 16 + v / 4) :: ·)
        | _ => (base64From 0 0 0 rest).map (UInt8.ofNat (bits * 64 + v) :: ·)

/-- The bytes that a text in base 64 stands for. -/
def base64? (cs : List Char) : Option (List UInt8) := base64From 0 0 0 cs

example : base64? "aGk=".toList = some [104, 105] := by decide

end PluginCatalog.Text
