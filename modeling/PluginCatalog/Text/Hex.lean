/-!
# Hexadecimal numerals

* `Text.hex capital width n` writes `n` with exactly `width` hexadecimal digits, the higher ones
  dropped; letters are capitals when `capital` is set.
* `Text.hexValue? c` is the value of a hexadecimal digit.
-/

namespace PluginCatalog.Text

/-- The digit of value `d`, for `d` below sixteen. -/
def hexDigit (capital : Bool) (d : Nat) : Char :=
  if d < 10 then Char.ofNat (48 + d) else Char.ofNat ((if capital then 55 else 87) + d)

/-- The last `width` hexadecimal digits of `n`. -/
def hex (capital : Bool) : Nat → Nat → List Char
  | 0, _ => []
  | width + 1, n => hex capital width (n / 16) ++ [hexDigit capital (n % 16)]

/-- The value of a hexadecimal digit in either case. -/
def hexValue? (c : Char) : Option Nat :=
  if '0' ≤ c ∧ c ≤ '9' then some (c.toNat - 48)
  else if 'a' ≤ c ∧ c ≤ 'f' then some (c.toNat - 87)
  else if 'A' ≤ c ∧ c ≤ 'F' then some (c.toNat - 55)
  else none

end PluginCatalog.Text
