import PluginCatalog.Proofs.Version.Keys

/-!
# Which texts are versions

* `ShortRuns text`: no run of digits in the text is overlong. Then no number of a version is
  (`isShort_of_shortRuns`).
* `parse_spells`: a text with short runs is read as a version exactly if pieces spell it, and its
  key is that of the pieces, of which there is one choice; any other text is malformed.
-/

namespace PluginCatalog

/-! ## Parts of a text -/

namespace Text

theorem strip_isInfix (cs : List Char) : strip cs <:+: cs := by
  have hstart : stripStart cs <:+ cs := List.dropWhile_suffix isBlank
  exact (stripEnd_isPrefix (stripStart cs)).isInfix.trans hstart.isInfix

theorem isInfix_unfields {sep : Char} {f : List Char} {fs : List (List Char)} (h : f ∈ fs) :
    f <:+: unfields sep fs := by
  induction fs with
  | nil => cases h
  | cons g fs ih =>
    cases fs with
    | nil =>
      obtain rfl := List.mem_singleton.1 h
      exact List.infix_rfl
    | cons g' gs =>
      change f <:+: g ++ sep :: unfields sep (g' :: gs)
      rcases List.mem_cons.1 h with rfl | h
      · exact (List.prefix_append f _).isInfix
      · have hrest := (ih h).trans (List.suffix_cons sep _).isInfix
        exact hrest.trans (List.suffix_append g _).isInfix

end Text

namespace Version

/-! ## Runs of digits -/

/-- No run of digits in a text has too many of them. -/
def ShortRuns (text : String) : Prop :=
  ∀ run, run <:+: text.toList → run.all Text.isDigit → run.length ≤ maxDigits

theorem isDigit_of_isNumber {n : List Char} (h : isNumber n) : n.all Text.isDigit := by
  obtain rfl | ⟨c, ds, rfl, ⟨h₁, h₉⟩, hds⟩ := isNumber_iff.1 h
  · decide
  · have h₀ : '0' ≤ c := Char.le_trans (by decide) h₁
    have hc : c.isDigit = true := by
      simp only [Char.isDigit, Bool.and_eq_true, decide_eq_true_eq]
      exact ⟨h₀, h₉⟩
    rw [List.all_cons, Text.isDigit_of_char_isDigit hc, hds]
    rfl

/-- What stands behind a mark is a part of the text. -/
theorem isInfix_optionalText {mark : Char} {cs : List Char} {piece : Option (List Char)}
    (h : cs ∈ piece) : cs <:+: optionalText mark piece := by
  rw [h]
  exact (List.suffix_cons mark cs).isInfix

/-- What the pieces give, one by one. -/
def Parts.spans (p : Parts) : List (List Char) :=
  [if p.marked then ['v'] else [], p.major, optionalText '.' p.minor, optionalText '.' p.patch,
    optionalText '-' (p.preRelease.map (Text.unfields '.')),
    optionalText '+' (p.build.map (Text.unfields '.'))]

theorem Parts.isInfix_text {p : Parts} {cs : List Char} (h : cs ∈ p.spans) : cs <:+: p.text := by
  have htext : p.text = p.spans.flatten := by simp [text, spans]
  rw [htext]
  exact List.infix_of_mem_flatten h

/-- The numbers of pieces are runs of digits in what the pieces give. -/
theorem Parts.WellFormed.run_of_mem_numbers {p : Parts} (h : p.WellFormed) {n : List Char}
    (hn : n ∈ p.numbers) : n <:+: p.text ∧ n.all Text.isDigit := by
  have hmajor : p.major <:+: p.text := isInfix_text (by simp [spans])
  have hminor : optionalText '.' p.minor <:+: p.text := isInfix_text (by simp [spans])
  have hpatch : optionalText '.' p.patch <:+: p.text := isInfix_text (by simp [spans])
  have hpre : optionalText '-' (p.preRelease.map (Text.unfields '.')) <:+: p.text :=
    isInfix_text (by simp [spans])
  unfold numbers at hn
  simp only [List.mem_cons, List.mem_append, Option.mem_toList, List.mem_filter] at hn
  rcases hn with rfl | (hn | hn) | ⟨hn, hd⟩
  · exact ⟨hmajor, isDigit_of_isNumber h.major⟩
  · exact ⟨(isInfix_optionalText hn).trans hminor, isDigit_of_isNumber (h.minor n hn)⟩
  · exact ⟨(isInfix_optionalText hn).trans hpatch, isDigit_of_isNumber (h.patch n hn)⟩
  · obtain ⟨ids, hids, hmem⟩ : ∃ ids, p.preRelease = some ids ∧ n ∈ ids := by
      cases hsome : p.preRelease with
      | none => simp [hsome] at hn
      | some ids => exact ⟨ids, rfl, by simpa [hsome] using hn⟩
    rw [hids] at hpre
    refine ⟨(Text.isInfix_unfields hmem).trans ((isInfix_optionalText rfl).trans hpre), ?_⟩
    exact List.all_eq_true.2 fun c hc => Text.isDigit_of_char_isDigit (List.all_eq_true.1 hd c hc)

/-- Where runs of digits are short, the numbers of a version are. -/
theorem Parts.Spells.short {p : Parts} {text : String} (hp : p.Spells text)
    (h : ShortRuns text) : ∀ n ∈ p.numbers, n.length ≤ maxDigits := by
  intro n hn
  obtain ⟨hrun, hdigits⟩ := hp.wellFormed.run_of_mem_numbers hn
  rw [hp.spelling] at hrun
  exact h n (hrun.trans (Text.strip_isInfix _)) hdigits

/-! ## Reading -/

theorem isWritten_of_parse {text : String} {v : Version} (h : parse text = .ok v) :
    isWritten (some text) = .ok true := by
  simp [isWritten, parse?, h]

theorem parse_of_not_spells {text : String} (h : ¬∃ p : Parts, p.Spells text) :
    parse text = .error (.malformed (some text)) := by
  have hnone : Parts.ofText? (Text.strip text.toList) = none := by
    refine Option.eq_none_iff_forall_ne_some.2 fun p hp => h ⟨p, Parts.spells_iff.2 hp⟩
  simp [parse, hnone]

/-- **A text is a version** exactly if it is spelt by pieces, in one way, and its key is that of the
pieces; every other text is malformed. -/
theorem parse_spells {text : String} (h : ShortRuns text) :
    ((∃ v, parse text = .ok v) ↔ ∃ p : Parts, p.Spells text) ∧
      (∀ p q : Parts, p.Spells text → q.Spells text → p = q) ∧
      (∀ (v : Version) (p : Parts), parse text = .ok v → p.Spells text → v.sortKey = p.sortKey) ∧
      ((¬∃ p : Parts, p.Spells text) → parse text = .error (.malformed (some text))) ∧
      ∃ b, isWritten (some text) = .ok b ∧ (b ↔ ∃ p : Parts, p.Spells text) := by
  have hread : ∀ p : Parts, p.Spells text → parse text = .ok p.version :=
    fun p hp => parse_eq_ok_iff.2 ⟨p, hp, hp.short h, rfl⟩
  refine ⟨⟨?_, ?_⟩, fun p q hp hq => hp.unique hq, fun v p hv hp => ?_, parse_of_not_spells, ?_⟩
  · rintro ⟨v, hv⟩
    obtain ⟨p, hp, -⟩ := parse_eq_ok_iff.1 hv
    exact ⟨p, hp⟩
  · rintro ⟨p, hp⟩
    exact ⟨p.version, hread p hp⟩
  · obtain rfl := Except.ok.inj ((hread p hp).symm.trans hv)
    exact hp.wellFormed.sortKey_version
  · by_cases hspelt : ∃ p : Parts, p.Spells text
    · obtain ⟨p, hp⟩ := hspelt
      exact ⟨true, isWritten_of_parse (hread p hp), by simpa using ⟨p, hp⟩⟩
    · refine ⟨false, ?_, by simpa using hspelt⟩
      simp [isWritten, parse?, parse_of_not_spells hspelt]

/-- Blanks around, a digit of another script, a missing number, identifiers with hyphens and leading
zeros, and a build. -/
theorem parse_spells_scripts :
    let text := "\u2003v1٢.0-rc-1.007.-+build.5\n"
    ShortRuns text ∧ ∃ v, parse text = .ok v ∧
      v.sortKey = ⟨12, 0, 0, 0, [⟨1, 0, "rc-1"⟩, ⟨0, 7, ""⟩, ⟨1, 0, "-"⟩]⟩ := by
  intro text
  have hshort : ShortRuns text := fun run hrun _ =>
    Nat.le_trans hrun.length_le (by decide +kernel)
  let p : Parts := ⟨true, ['1', '٢'], some ['0'], none,
    some ["rc-1".toList, "007".toList, ['-']], some ["build".toList, ['5']]⟩
  have hp : p.Spells text := Parts.spells_iff.2 (by decide +kernel)
  obtain ⟨hiff, -, hkey, -⟩ := parse_spells hshort
  obtain ⟨v, hv⟩ := hiff.2 ⟨p, hp⟩
  exact ⟨hshort, v, hv, (hkey v p hv hp).trans (by decide +kernel)⟩

end Version

end PluginCatalog
