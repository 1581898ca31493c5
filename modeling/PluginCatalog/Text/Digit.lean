/-!
# Decimal digits

Every script that writes numbers in the decimal system has ten digits in a row, zero first.

* `Text.zeros` lists the zeros, `Text.digitValue? c` is the value of a digit of any script, and
  `Text.isDigit c` tells whether there is one.
* `Text.numeralValue ds` is the number that a row of digits denotes.
-/

namespace PluginCatalog.Text

/-- The digits zero of all scripts, by code point. Nine further digits follow each of them. -/
def zeros : List Nat :=
  [0x30, 0x660, 0x6f0, 0x7c0, 0x966, 0x9e6, 0xa66, 0xae6, 0xb66, 0xbe6, 0xc66, 0xce6, 0xd66,
    0xde6, 0xe50, 0xed0, 0xf20, 0x1040, 0x1090, 0x17e0, 0x1810, 0x1946, 0x19d0, 0x1a80, 0x1a90,
    0x1b50, 0x1bb0, 0x1c40, 0x1c50, 0xa620, 0xa8d0, 0xa900, 0xa9d0, 0xa9f0, 0xaa50, 0xabf0,
    0xff10, 0x104a0, 0x10d30, 0x11066, 0x110f0, 0x11136, 0x111d0, 0x112f0, 0x11450, 0x114d0,
    0x11650, 0x116c0, 0x11730, 0x118e0, 0x11950, 0x11c50, 0x11d50, 0x11da0, 0x16a60, 0x16ac0,
    0x16b50, 0x1d7ce, 0x1d7d8, 0x1d7e2, 0x1d7ec, 0x1d7f6, 0x1e140, 0x1e2f0, 0x1e950, 0x1fbf0]

/-- The value of a decimal digit of any script. -/
def digitValue? (c : Char) : Option Nat :=
  if c.toNat < 128 then
    if '0' ≤ c ∧ c ≤ '9' then some (c.toNat - 48) else none
  else
    (zeros.find? fun z => z ≤ c.toNat && c.toNat < z + 10).map (c.toNat - ·)

/-- The decimal digits of all scripts. -/
def isDigit (c : Char) : Bool := (digitValue? c).isSome

/-- The digits of ASCII are among them. -/
theorem isDigit_of_char_isDigit {c : Char} (h : c.isDigit = true) : isDigit c = true := by
  simp only [Char.isDigit, Bool.and_eq_true, decide_eq_true_eq] at h
  have h₁ : 48 ≤ c.toNat := h.1
  have h₂ : c.toNat ≤ 57 := h.2
  have h₃ : '0' ≤ c ∧ c ≤ '9' := ⟨h.1, h.2⟩
  have h₄ : c.toNat < 128 := by omega
  simp [isDigit, digitValue?, h₃, h₄]

/-- The number that a row of digits denotes; what is no digit counts as zero. -/
def numeralValue (ds : List Char) : Nat := ds.foldl (fun n c => 10 * n + (digitValue? c).getD 0) 0

end PluginCatalog.Text
