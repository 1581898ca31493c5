import PluginCatalog.Proofs.Ends
import PluginCatalog.Target

/-!
# Spellings of targets

A target is found by its spellings, and compared with others in its normal form. The two agree.

* `Target.normalize_normalize`: a normal form is left alone.
* `Target.Varies text spelling`: the text is the spelling in letters of any case, with blanks around
  it, and denotes the target of the spelling (`Target.normalize_of_varies`).
* `Target.mem_spellings_iff`: a known spelling is one of a target exactly if it denotes the target.
* `Target.normalize_agrees` puts this together for all texts.
-/

namespace PluginCatalog

/-! ## Small letters -/

namespace Text

/-- A letter is no blank, whether it is written small or not. -/
theorem isBlank_foldChar (c : Char) : isBlank (foldChar c) = isBlank c := by
  unfold foldChar
  split
  next hk => rw [hk]; decide
  · by_cases hu : 'A' ≤ c ∧ c ≤ 'Z'
    · have all : ∀ n < 91, 65 ≤ n →
          isBlank (Char.ofNat n).toLower = isBlank (Char.ofNat n) := by decide
      have h₁ : 65 ≤ c.toNat := hu.1
      have h₂ : c.toNat ≤ 90 := hu.2
      simpa using all c.toNat (by omega) h₁
    · have hc : c.toLower = c := dif_neg hu
      rw [hc]

/-- What becomes a letter of ASCII there is written small like this. -/
theorem foldChar_eq_toLower {c : Char} (h : c.toLower.toNat < 128) : foldChar c = c.toLower := by
  unfold foldChar
  split
  next hk =>
    rw [hk] at h
    exact absurd h (by decide)
  · rfl

end Text

namespace Target

/-! ## Texts that vary a spelling -/

/-- The text is the spelling, in letters of ASCII of any case and with blanks around. -/
def Varies (text spelling : String) : Prop :=
  ∃ before word after, text.toList = before ++ word ++ after ∧
    (∀ c ∈ before, Text.isBlank c) ∧ (∀ c ∈ after, Text.isBlank c) ∧
      word.map Char.toLower = spelling.toList.map Char.toLower

variable {text spelling target : String}

/-- The known spellings are written in small letters of ASCII and without blanks. -/
theorem plain_of_mem_aliases (h : (spelling, target) ∈ aliases) {d : Char}
    (hd : d ∈ spelling.toList) : d.toLower = d ∧ d.toNat < 128 ∧ Text.isBlank d = false := by
  have hall : ∀ a ∈ aliases, a.1.toList.all fun d =>
      decide (d.toLower = d ∧ d.toNat < 128 ∧ Text.isBlank d = false) := by decide +kernel
  exact of_decide_eq_true (List.all_eq_true.1 (hall (spelling, target) h) d hd)

theorem lookup_aliases (h : (spelling, target) ∈ aliases) :
    aliases.lookup spelling = some target := by
  have hall : ∀ a ∈ aliases, aliases.lookup a.1 = some a.2 := by decide +kernel
  exact hall (spelling, target) h

/-- A text that varies a known spelling is looked up as the spelling. -/
theorem folded_stripped_of_varies (ha : (spelling, target) ∈ aliases) (h : Varies text spelling) :
    Text.folded (Text.stripped text) = spelling := by
  obtain ⟨before, word, after, htext, hbefore, hafter, hword⟩ := h
  have hsmall : spelling.toList.map Char.toLower = spelling.toList :=
    (List.map_congr_left fun d hd => (plain_of_mem_aliases ha hd).1).trans (List.map_id _)
  rw [hsmall] at hword
  -- Each letter of the word is one of the spelling, when it is written small.
  have hfold : ∀ c ∈ word, Text.foldChar c = c.toLower ∧ Text.isBlank c = false := by
    intro c hc
    have hmem : c.toLower ∈ spelling.toList := by
      rw [← hword]
      exact List.mem_map_of_mem hc
    obtain ⟨-, hascii, hblank⟩ := plain_of_mem_aliases ha hmem
    have hfold := Text.foldChar_eq_toLower hascii
    exact ⟨hfold, by rw [← Text.isBlank_foldChar, hfold, hblank]⟩
  have hstrip : Text.strip text.toList = word := by
    rw [htext, Text.strip_around hbefore hafter]
    exact Text.strip_of_forall fun c hc => (hfold c hc).2
  have hletters : Text.fold word = spelling.toList :=
    (List.map_congr_left fun c hc => (hfold c hc).1).trans hword
  unfold Text.folded Text.stripped
  rw [String.toList_ofList, hstrip, hletters, String.ofList_toList]

/-- **A text that varies a known spelling** denotes the target of the spelling. -/
theorem normalize_of_varies (ha : (spelling, target) ∈ aliases) (h : Varies text spelling) :
    normalize text = target := by
  rw [normalize, folded_stripped_of_varies ha h, lookup_aliases ha]
  rfl

/-! ## Normal forms -/

/-- A text denotes a target that is listed, or itself. -/
theorem normalize_cases (t : String) : (∃ a ∈ aliases, normalize t = a.2) ∨ normalize t = t := by
  unfold normalize
  cases hlookup : aliases.lookup (Text.folded (Text.stripped t)) with
  | none => exact .inr rfl
  | some target =>
    obtain ⟨before, after, hsplit, -⟩ := List.lookup_eq_some_iff.1 hlookup
    have hmem : (Text.folded (Text.stripped t), target) ∈ aliases := by
      rw [hsplit]
      simp
    exact .inl ⟨_, hmem, rfl⟩

/-- **A normal form** is left alone. -/
theorem normalize_normalize (t : String) : normalize (normalize t) = normalize t := by
  obtain ⟨a, ha, hnormal⟩ | hself := normalize_cases t
  · have hall : ∀ a ∈ aliases, normalize a.2 = a.2 := by decide +kernel
    rw [hnormal, hall a ha]
  · rw [hself, hself]

/-- **A known spelling** is one of those of a target exactly if it denotes the target. -/
theorem mem_spellings_iff {s t : String} (h : s ∈ aliases.map Prod.fst ∨ s = t) :
    s ∈ spellings t ↔ normalize s = normalize t := by
  refine ⟨normalize_of_mem_spellings, fun hsame => mem_spellings.2 ?_⟩
  obtain hs | rfl := h
  · obtain ⟨a, ha, rfl⟩ := List.mem_map.1 hs
    rw [normalize_of_mem_aliases ha] at hsame
    exact .inr (List.mem_map.2 ⟨a, List.mem_filter.2 ⟨ha, beq_iff_eq.2 hsame⟩, rfl⟩)
  · exact .inl rfl

/-- **Spellings and normal forms agree.** Normalizing twice is normalizing once, all spellings of a
target have its normal form, the known ones among all others are told by it, and a text that varies
a known spelling has the normal form of the spelling. -/
theorem normalize_agrees :
    (∀ t, normalize (normalize t) = normalize t) ∧
      (∀ s t, s ∈ spellings t → normalize s = normalize t) ∧
      (∀ s t, s ∈ aliases.map Prod.fst ∨ s = t →
        (s ∈ spellings t ↔ normalize s = normalize t)) ∧
      ∀ spelling target text, (spelling, target) ∈ aliases → Varies text spelling →
        normalize text = target ∧ normalize spelling = target := by
  refine ⟨normalize_normalize, fun _ _ => normalize_of_mem_spellings,
    fun _ _ => mem_spellings_iff, fun spelling target text ha hvaries => ?_⟩
  exact ⟨normalize_of_varies ha hvaries, normalize_of_mem_aliases ha⟩

/-- A spelling in letters of both cases with blanks around it, a known spelling beside a text that
varies one, and none beside a text that denotes itself. -/
theorem normalize_agrees_variants :
    normalize (normalize "\u2003Mission-CONTROL\n") = "mission-control" ∧
      (∃ s ∈ spellings "K8S", s ≠ "K8S" ∧ normalize s = normalize "K8S") ∧
      "tmc" ∈ spellings "TMC " ∧ "tmc" ∉ spellings "t m c" := by
  obtain ⟨htwice, hdenotes, hknown, hvaries⟩ := normalize_agrees
  have hvariant : Varies "\u2003Mission-CONTROL\n" "mission-control" :=
    ⟨['\u2003'], "Mission-CONTROL".toList, ['\n'], by decide +kernel,
      List.forall_mem_singleton.2 (by decide), List.forall_mem_singleton.2 (by decide),
      by decide +kernel⟩
  obtain ⟨hnormal, -⟩ := hvaries "mission-control" "mission-control" _ (by decide) hvariant
  have hmem : "kubernetes" ∈ spellings "K8S" := by decide +kernel
  refine ⟨(htwice _).trans hnormal, ⟨_, hmem, by decide, hdenotes _ _ hmem⟩,
    (hknown "tmc" "TMC " (.inl (by decide))).2 (by decide +kernel), fun h => ?_⟩
  exact absurd ((hknown "tmc" "t m c" (.inl (by decide))).1 h) (by decide +kernel)

end Target

end PluginCatalog
