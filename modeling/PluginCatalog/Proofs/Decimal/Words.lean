import PluginCatalog.Proofs.Decimal.Doubles

/-!
# Texts that are read as no number

A text that is read as a double is a numeral, or a word for what no numeral denotes.

* `Decimal.SpellsNan cs`: apart from blanks around it, `cs` is the word for no number, in letters of
  any case and with a sign or without one.
* `Decimal.float?_isNaN_iff`: these texts are read as no number, and no numeral is.
-/

namespace PluginCatalog.Decimal

variable {cs ds : List Char}

/-- A text is the word for no number, with a sign or without one and with blanks around. -/
def SpellsNan (cs : List Char) : Prop :=
  ∃ sign ∈ [[], ['-'], ['+']], ∃ word, unpadded (cs.map plainChar) = sign ++ word ∧
    word.map Char.toLower = "nan".toList

/-! ## Underscores -/

/-- A text that is left without digits had no underscores to be taken away. -/
theorem eq_of_withoutUnderscores? {afterDigit : Bool}
    (h : withoutUnderscores? afterDigit cs = some ds) (hds : ∀ c ∈ ds, c.isDigit = false) :
    cs = ds := by
  fun_induction withoutUnderscores? afterDigit cs generalizing ds with
  | case1 => exact (Option.some.inj h)
  | case2 afterDigit c rest hdigit ih =>
    obtain ⟨ds', -, rfl⟩ := Option.map_eq_some_iff.1 h
    have hc := hds c List.mem_cons_self
    simp [hc] at hdigit
  | case3 => cases h
  | case4 => cases h
  | case5 afterDigit c rest _ hc ih =>
    obtain ⟨ds', hrest, rfl⟩ := Option.map_eq_some_iff.1 h
    rw [ih hrest fun d hd => hds d (List.mem_cons_of_mem c hd)]

theorem withoutUnderscores?_eq_self (afterDigit : Bool) (h : '_' ∉ cs) :
    withoutUnderscores? afterDigit cs = some cs := by
  fun_induction withoutUnderscores? afterDigit cs with
  | case1 => rfl
  | case2 => simp at h
  | case3 => simp at h
  | case4 => simp at h
  | case5 afterDigit c rest _ hc ih =>
    rw [ih fun hrest => h (List.mem_cons_of_mem c hrest)]
    rfl

/-! ## Words -/

theorem magnitudeBits?_le {bits : Nat} (h : magnitudeBits? cs = some bits) :
    bits ≤ infinityBits := by
  unfold magnitudeBits? at h
  dsimp only at h
  -- The fraction may be there or not.
  split at h
  all_goals
    split at h
    · cases h
    · obtain ⟨exponent, -, rfl⟩ := Option.map_eq_some_iff.1 h
      exact decimalBits_le _ _

/-- Without blanks and underscores, the word alone is read as no number. -/
theorem bareFloat?_isNaN_iff :
    (∃ x, bareFloat? cs = some x ∧ x.isNaN = true) ↔
      (takeSign cs).2.map Char.toLower = "nan".toList := by
  have hword : infinityWords.contains "nan".toList = false := by decide +kernel
  have hnan : nan.isNaN = true := by decide +kernel
  unfold bareFloat?
  rcases takeSign cs with ⟨negative, body⟩
  dsimp only
  by_cases h : body.map Char.toLower = "nan".toList
  · rw [h, hword]
    exact iff_of_true ⟨nan, rfl, hnan⟩ rfl
  · refine iff_of_false ?_ h
    rintro ⟨x, hx, hx'⟩
    have hnumber : x.isNaN = false := by
      split at hx
      · obtain rfl := Option.some.inj hx
        exact isNaN_signed le_rfl
      · rw [if_neg (show ¬body.map Char.toLower = nanWord from h)] at hx
        obtain ⟨bits, hbits, rfl⟩ := Option.map_eq_some_iff.1 hx
        exact isNaN_signed (magnitudeBits?_le hbits)
    exact Bool.false_ne_true (hnumber.symm.trans hx')

/-- A sign in front of the word is taken off. -/
theorem takeSign_word_iff :
    (takeSign cs).2.map Char.toLower = "nan".toList ↔ ∃ sign ∈ [[], ['-'], ['+']], ∃ word,
      cs = sign ++ word ∧ word.map Char.toLower = "nan".toList := by
  constructor
  · intro h
    unfold takeSign at h
    split at h
    · exact ⟨['-'], by simp, _, rfl, h⟩
    · exact ⟨['+'], by simp, _, rfl, h⟩
    · exact ⟨[], by simp, cs, rfl, h⟩
  · rintro ⟨sign, hsign, word, rfl, hword⟩
    simp only [List.mem_cons, List.not_mem_nil, or_false] at hsign
    rcases hsign with rfl | rfl | rfl
    · -- The word itself does not begin with a sign.
      rw [List.nil_append]
      unfold takeSign
      split
      · simp at hword
      · simp at hword
      · exact hword
    · exact hword
    · exact hword

/-- A word with a sign has neither digits nor underscores. -/
theorem plain_of_word {sign word : List Char} (hsign : sign ∈ [[], ['-'], ['+']])
    (hword : word.map Char.toLower = "nan".toList) :
    ∀ c ∈ sign ++ word, c.isDigit = false ∧ c ≠ '_' := by
  intro c hc
  rcases List.mem_append.1 hc with hc | hc
  · simp only [List.mem_cons, List.not_mem_nil, or_false] at hsign
    rcases hsign with rfl | rfl | rfl
    · cases hc
    · rw [List.mem_singleton.1 hc]
      decide
    · rw [List.mem_singleton.1 hc]
      decide
  · have hmem : c.toLower ∈ "nan".toList := hword ▸ List.mem_map_of_mem hc
    constructor
    · refine Bool.eq_false_iff.2 fun hd => ?_
      -- The small letter of a digit is the digit itself.
      have hsame : c.toLower = c := by
        refine dif_neg fun hupper => ?_
        simp only [Char.isDigit, Bool.and_eq_true, decide_eq_true_eq] at hd
        have hlow : 65 ≤ c.toNat := hupper.1
        have hhigh : c.toNat ≤ 57 := hd.2
        omega
      have hletter : c = 'n' ∨ c = 'a' ∨ c = 'n' := by simpa [hsame] using hmem
      rcases hletter with rfl | rfl | rfl <;> exact absurd hd (by decide)
    · rintro rfl
      exact absurd hmem (by decide)

/-- **The texts that are read as no number.** -/
theorem float?_isNaN_iff : (∃ x, float? cs = some x ∧ x.isNaN = true) ↔ SpellsNan cs := by
  have hread : float? cs =
    (withoutUnderscores? false (unpadded (cs.map plainChar))).bind bareFloat? := rfl
  rw [hread, SpellsNan]
  constructor
  · rintro ⟨x, hx, hnan⟩
    obtain ⟨ds, hds, hx⟩ := Option.bind_eq_some_iff.1 hx
    have hword := takeSign_word_iff.1 (bareFloat?_isNaN_iff.1 ⟨x, hx, hnan⟩)
    obtain ⟨sign, hsign, word, rfl, hword⟩ := hword
    have hplain := plain_of_word hsign hword
    exact ⟨sign, hsign, word, eq_of_withoutUnderscores? hds fun c hc => (hplain c hc).1, hword⟩
  · rintro ⟨sign, hsign, word, htext, hword⟩
    have hplain := plain_of_word hsign hword
    obtain ⟨x, hx, hnan⟩ := bareFloat?_isNaN_iff.2
      (takeSign_word_iff.2 ⟨sign, hsign, word, rfl, hword⟩)
    refine ⟨x, ?_, hnan⟩
    rw [htext, withoutUnderscores?_eq_self false fun hc => (hplain _ hc).2 rfl]
    exact hx

end PluginCatalog.Decimal
