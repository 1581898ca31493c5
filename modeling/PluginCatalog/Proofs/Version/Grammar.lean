import PluginCatalog.Text.Blank
import PluginCatalog.Version.Grammar

/-!
# The grammar of written versions

Which texts are written versions is said apart from how they are read.

* `Parts.WellFormed`: the pieces are numbers and identifiers, and the third number needs the second.
* `Parts.ofText?_text` and `Parts.ofText?_inv`: well-formed pieces that are written one after the
  other are found again, and pieces that are found are well formed and give the text.
* `Parts.Spells p text`: without the blanks around it, the text is what the pieces `p` give. By
  `Parts.spells_iff` these are the pieces that are read, so that a text is spelt in one way at most.
-/

namespace PluginCatalog

/-! ## Fields without their separator -/

namespace Text

variable {sep : Char}

theorem fields_of_not_mem {cs : List Char} (h : sep ∉ cs) : fields sep cs = [cs] := by
  induction cs with
  | nil => rfl
  | cons c cs ih =>
    rw [List.mem_cons, not_or] at h
    obtain ⟨hc, hcs⟩ := h
    rw [fields, if_neg (Ne.symm hc), ih hcs]

theorem fields_append {f : List Char} (h : sep ∉ f) (cs : List Char) :
    fields sep (f ++ sep :: cs) = f :: fields sep cs := by
  induction f with
  | nil => simp [fields]
  | cons c f ih =>
    rw [List.mem_cons, not_or] at h
    obtain ⟨hc, hf⟩ := h
    rw [List.cons_append, fields, if_neg (Ne.symm hc), ih hf]

/-- Fields without the separator are found again. -/
theorem fields_unfields {fs : List (List Char)} (hne : fs ≠ []) (h : ∀ f ∈ fs, sep ∉ f) :
    fields sep (unfields sep fs) = fs := by
  induction fs with
  | nil => exact absurd rfl hne
  | cons f fs ih =>
    obtain ⟨hf, hfs⟩ := List.forall_mem_cons.1 h
    cases fs with
    | nil => exact fields_of_not_mem hf
    | cons g gs =>
      rw [unfields, fields_append hf, ih (List.cons_ne_nil g gs) hfs]
      exact List.cons_ne_nil g gs

theorem mem_unfields {fs : List (List Char)} {c : Char} (h : c ∈ unfields sep fs) :
    c = sep ∨ ∃ f ∈ fs, c ∈ f := by
  induction fs with
  | nil => cases h
  | cons f fs ih =>
    cases fs with
    | nil => exact .inr ⟨f, List.mem_cons_self, h⟩
    | cons g gs =>
      have hmem : c ∈ f ++ sep :: unfields sep (g :: gs) := h
      rw [List.mem_append, List.mem_cons] at hmem
      rcases hmem with hc | rfl | hc
      · exact .inr ⟨f, List.mem_cons_self, hc⟩
      · exact .inl rfl
      · obtain hsep | ⟨f', hf', hc⟩ := ih hc
        · exact .inl hsep
        · exact .inr ⟨f', List.mem_cons_of_mem f hf', hc⟩

end Text

namespace Version

/-! ## Well-formed pieces -/

/-- At least one identifier, and nothing else. -/
def AreIdentifiers (ids : List (List Char)) : Prop := ids ≠ [] ∧ ∀ id ∈ ids, isIdentifier id

/-- The pieces that a written version has. -/
structure Parts.WellFormed (p : Parts) : Prop where
  major : isNumber p.major
  minor : ∀ n ∈ p.minor, isNumber n
  patch : ∀ n ∈ p.patch, isNumber n
  /-- The third number comes after the second one. -/
  minor_of_patch : p.minor = none → p.patch = none
  preRelease : ∀ ids ∈ p.preRelease, AreIdentifiers ids
  build : ∀ ids ∈ p.build, AreIdentifiers ids

/-! ## Where pieces end -/

/-- A text does not go on with characters of a class. -/
def Stops (p : Char → Bool) (rest : List Char) : Prop := ∀ c, rest.head? = some c → p c = false

namespace Stops

variable {p : Char → Bool} {cs rest : List Char}

theorem nil : Stops p [] := nofun

theorem takeWhile (hp : cs.all p) (h : Stops p rest) : (cs ++ rest).takeWhile p = cs := by
  rw [List.takeWhile_append_of_pos (List.all_eq_true.1 hp)]
  cases rest with
  | nil => simp
  | cons c rest => simp [h c rfl]

theorem dropWhile (hp : cs.all p) (h : Stops p rest) : (cs ++ rest).dropWhile p = rest := by
  rw [List.dropWhile_append_of_pos (List.all_eq_true.1 hp)]
  cases rest with
  | nil => rfl
  | cons c rest => simp [h c rfl]

/-- A piece with a mark of another class in front may come in between. -/
theorem piece {mark : Char} (hmark : p mark = false) (h : Stops p rest)
    (piece : Option (List Char)) : Stops p (optionalText mark piece ++ rest) := by
  cases piece with
  | none => exact h
  | some cs =>
    intro c hc
    rwa [← Option.some.inj hc]

end Stops

/-! ## Numbers -/

/-- A number is `0`, or starts with one of `1` to `9`. -/
theorem isNumber_iff {n : List Char} : isNumber n ↔
    n = ['0'] ∨ ∃ c ds, n = c :: ds ∧ ('1' ≤ c ∧ c ≤ '9') ∧ ds.all Text.isDigit := by
  unfold isNumber
  split
  · simp
  · simp
  next c ds hne =>
    simp only [Bool.and_eq_true, decide_eq_true_eq, List.cons.injEq]
    constructor
    · rintro ⟨hc, hds⟩
      exact .inr ⟨c, ds, ⟨rfl, rfl⟩, hc, hds⟩
    · rintro (⟨rfl, rfl⟩ | ⟨c', ds', ⟨rfl, rfl⟩, hc, hds⟩)
      · exact absurd rfl (hne rfl)
      · exact ⟨hc, hds⟩

theorem takeNumber?_inv {cs n rest : List Char} (h : takeNumber? cs = some (n, rest)) :
    isNumber n ∧ n ++ rest = cs := by
  unfold takeNumber? at h
  split at h
  · cases h
  · cases h
    exact ⟨rfl, rfl⟩
  next c cs _ =>
    split at h
    next hc =>
      cases h
      refine ⟨isNumber_iff.2 (.inr ⟨c, _, rfl, hc, List.all_takeWhile⟩), ?_⟩
      rw [List.cons_append, List.takeWhile_append_dropWhile]
    · cases h

theorem takeNumber?_append {n rest : List Char} (hn : isNumber n)
    (hrest : Stops Text.isDigit rest) : takeNumber? (n ++ rest) = some (n, rest) := by
  obtain rfl | ⟨c, ds, rfl, hc, hds⟩ := isNumber_iff.1 hn
  · rfl
  · have hne : c ≠ '0' := by
      rintro rfl
      exact absurd hc.1 (by decide)
    rw [List.cons_append, takeNumber?, if_pos hc, hrest.takeWhile hds, hrest.dropWhile hds]
    exact fun he => hne he

theorem takeDottedNumber?_inv {cs rest : List Char} {n : Option (List Char)}
    (h : takeDottedNumber? cs = some (n, rest)) :
    (∀ m ∈ n, isNumber m) ∧ optionalText '.' n ++ rest = cs ∧
      (n = none → Stops (· == '.') rest) := by
  unfold takeDottedNumber? at h
  split at h
  next cs =>
    obtain ⟨⟨m, rest'⟩, hm, he⟩ := Option.map_eq_some_iff.1 h
    cases he
    obtain ⟨hnumber, rfl⟩ := takeNumber?_inv hm
    exact ⟨fun m' hm' => Option.some.inj hm' ▸ hnumber, rfl, nofun⟩
  next hdot =>
    cases h
    refine ⟨nofun, rfl, fun _ c hc => beq_eq_false_iff_ne.2 ?_⟩
    rintro rfl
    obtain ⟨rest', rfl⟩ := List.head?_eq_some_iff.1 hc
    exact hdot rest' rfl

theorem takeDottedNumber?_append {rest : List Char} {n : Option (List Char)}
    (hn : ∀ m ∈ n, isNumber m) (hrest : Stops Text.isDigit rest)
    (hdot : n = none → Stops (· == '.') rest) :
    takeDottedNumber? (optionalText '.' n ++ rest) = some (n, rest) := by
  cases n with
  | none =>
    rw [optionalText, List.nil_append, takeDottedNumber?]
    rintro rest' rfl
    exact absurd (hdot rfl '.' rfl) (by decide)
  | some m =>
    rw [optionalText, List.cons_append, takeDottedNumber?, takeNumber?_append (hn m rfl) hrest]
    rfl

/-! ## Identifiers -/

theorem not_mem_isIdentifier {cs : List Char} {c : Char} (h : isIdentifier cs)
    (hc : isIdentifierChar c = false) : c ∉ cs := by
  intro hmem
  have hall := List.all_eq_true.1 (Bool.and_eq_true_iff.1 h).2 c hmem
  rw [hc] at hall
  cases hall

theorem identifiers?_eq_some_iff {cs : List Char} {ids : List (List Char)} :
    identifiers? cs = some ids ↔ AreIdentifiers ids ∧ Text.unfields '.' ids = cs := by
  unfold identifiers?
  simp only [Option.ite_none_right_eq_some, List.all_eq_true, Option.some.injEq]
  constructor
  · rintro ⟨hall, rfl⟩
    exact ⟨⟨Text.fields_ne_nil '.' cs, hall⟩, Text.unfields_fields '.' cs⟩
  · rintro ⟨⟨hne, hall⟩, rfl⟩
    rw [Text.fields_unfields hne fun f hf => not_mem_isIdentifier (hall f hf) (by decide)]
    exact ⟨hall, rfl⟩

/-- Identifiers with dots between them have no plus sign. -/
theorem all_ne_plus_unfields {ids : List (List Char)} (h : AreIdentifiers ids) :
    (Text.unfields '.' ids).all (· != '+') := by
  refine List.all_eq_true.2 fun c hc => bne_iff_ne.2 ?_
  rintro rfl
  obtain hdot | ⟨f, hf, hmem⟩ := Text.mem_unfields hc
  · exact absurd hdot (by decide)
  · exact not_mem_isIdentifier (h.2 f hf) (by decide) hmem

theorem takePreRelease?_inv {cs rest : List Char} {ids : Option (List (List Char))}
    (h : takePreRelease? cs = some (ids, rest)) :
    (∀ i ∈ ids, AreIdentifiers i) ∧
      optionalText '-' (ids.map (Text.unfields '.')) ++ rest = cs := by
  unfold takePreRelease? at h
  split at h
  next cs =>
    obtain ⟨is, his, he⟩ := Option.map_eq_some_iff.1 h
    cases he
    obtain ⟨hids, htext⟩ := identifiers?_eq_some_iff.1 his
    refine ⟨fun i hi => Option.some.inj hi ▸ hids, ?_⟩
    rw [Option.map_some, htext, optionalText, List.cons_append, List.takeWhile_append_dropWhile]
  · cases h
    exact ⟨nofun, rfl⟩

theorem takePreRelease?_append {rest : List Char} {ids : Option (List (List Char))}
    (hids : ∀ i ∈ ids, AreIdentifiers i) (hrest : Stops (· != '+') rest) :
    takePreRelease? (optionalText '-' (ids.map (Text.unfields '.')) ++ rest) =
      some (ids, rest) := by
  cases ids with
  | none =>
    rw [Option.map_none, optionalText, List.nil_append, takePreRelease?]
    rintro rest' rfl
    exact absurd (hrest '-' rfl) (by decide)
  | some is =>
    have hplus := all_ne_plus_unfields (hids is rfl)
    have hread : identifiers? (Text.unfields '.' is) = some is :=
      identifiers?_eq_some_iff.2 ⟨hids is rfl, rfl⟩
    rw [Option.map_some, optionalText, List.cons_append, takePreRelease?, hrest.takeWhile hplus,
      hrest.dropWhile hplus, hread]
    rfl

theorem build?_eq_some_iff {cs : List Char} {ids : Option (List (List Char))} :
    build? cs = some ids ↔
      (∀ i ∈ ids, AreIdentifiers i) ∧ optionalText '+' (ids.map (Text.unfields '.')) = cs := by
  constructor
  · intro h
    unfold build? at h
    split at h
    · cases h
      exact ⟨nofun, rfl⟩
    · obtain ⟨is, his, rfl⟩ := Option.map_eq_some_iff.1 h
      obtain ⟨hids, rfl⟩ := identifiers?_eq_some_iff.1 his
      exact ⟨fun i hi => Option.some.inj hi ▸ hids, rfl⟩
    · cases h
  · rintro ⟨hids, rfl⟩
    cases ids with
    | none => rfl
    | some is =>
      have hread : identifiers? (Text.unfields '.' is) = some is :=
        identifiers?_eq_some_iff.2 ⟨hids is rfl, rfl⟩
      rw [Option.map_some, optionalText, build?, hread]
      rfl

/-! ## The whole -/

theorem takeMark_inv (cs : List Char) :
    (if (takeMark cs).1 then ['v'] else []) ++ (takeMark cs).2 = cs := by
  unfold takeMark
  split <;> rfl

theorem takeMark_append {cs : List Char} (h : Stops (· == 'v') cs) (marked : Bool) :
    takeMark ((if marked then ['v'] else []) ++ cs) = (marked, cs) := by
  cases marked with
  | true => rfl
  | false =>
    change takeMark cs = (false, cs)
    unfold takeMark
    split
    · exact absurd (h 'v' rfl) (by decide)
    · rfl

/-- A number is no mark. -/
theorem stops_number {n : List Char} (h : isNumber n) (rest : List Char) :
    Stops (· == 'v') (n ++ rest) := by
  intro c hc
  rw [beq_eq_false_iff_ne]
  rintro rfl
  obtain rfl | ⟨d, ds, rfl, hd, -⟩ := isNumber_iff.1 h
  · exact absurd hc (by simp)
  · obtain rfl := Option.some.inj hc
    exact absurd hd.2 (by decide)

/-- The text of what stands after the numbers. -/
def Parts.labels (p : Parts) : List Char :=
  optionalText '-' (p.preRelease.map (Text.unfields '.'))
    ++ optionalText '+' (p.build.map (Text.unfields '.'))

theorem Parts.stops_build (p : Parts) {q : Char → Bool} (hplus : q '+' = false) :
    Stops q (optionalText '+' (p.build.map (Text.unfields '.'))) := by
  rw [← List.append_nil (optionalText '+' _)]
  exact Stops.nil.piece hplus _

theorem Parts.stops_labels (p : Parts) {q : Char → Bool} (hminus : q '-' = false)
    (hplus : q '+' = false) : Stops q p.labels :=
  (p.stops_build hplus).piece hminus _

theorem Parts.text_eq (p : Parts) : p.text = (if p.marked then ['v'] else []) ++ (p.major ++
    (optionalText '.' p.minor ++ (optionalText '.' p.patch ++ p.labels))) := by
  simp only [text, labels, List.append_assoc]

/-- **Pieces that are found** are well formed, and the text is what they give when written. -/
theorem Parts.ofText?_inv {cs : List Char} {p : Parts} (h : ofText? cs = some p) :
    p.WellFormed ∧ p.text = cs := by
  have hmark := takeMark_inv cs
  unfold ofText? at h
  rcases hm : takeMark cs with ⟨marked, r₀⟩
  rw [hm] at hmark h
  obtain ⟨⟨major, r₁⟩, h₁, h⟩ := Option.bind_eq_some_iff.1 h
  obtain ⟨⟨minor, r₂⟩, h₂, h⟩ := Option.bind_eq_some_iff.1 h
  obtain ⟨⟨patch, r₃⟩, h₃, h⟩ := Option.bind_eq_some_iff.1 h
  obtain ⟨⟨preRelease, r₄⟩, h₄, h⟩ := Option.bind_eq_some_iff.1 h
  obtain ⟨build, h₅, h⟩ := Option.bind_eq_some_iff.1 h
  obtain rfl := Option.some.inj h
  obtain ⟨hmajor, rfl⟩ := takeNumber?_inv h₁
  obtain ⟨hminor, rfl, hdot⟩ := takeDottedNumber?_inv h₂
  obtain ⟨hpatch, rfl, -⟩ := takeDottedNumber?_inv h₃
  obtain ⟨hpre, rfl⟩ := takePreRelease?_inv h₄
  obtain ⟨hbuild, rfl⟩ := build?_eq_some_iff.1 h₅
  refine ⟨⟨hmajor, hminor, hpatch, fun hnone => ?_, hpre, hbuild⟩, ?_⟩
  · -- After a missing second number there is no dot for a third one.
    cases patch with
    | none => rfl
    | some n => exact absurd (hdot hnone '.' rfl) (by decide)
  · rw [text_eq]
    exact hmark

/-- **Well-formed pieces** that are written one after the other are found. -/
theorem Parts.WellFormed.ofText?_text {p : Parts} (h : p.WellFormed) :
    ofText? p.text = some p := by
  -- No number goes on with what follows it.
  have hlabels : Stops Text.isDigit p.labels := p.stops_labels (by decide) (by decide)
  have hpatch : Stops Text.isDigit (optionalText '.' p.patch ++ p.labels) :=
    hlabels.piece (by decide) _
  have hminor : Stops Text.isDigit
      (optionalText '.' p.minor ++ (optionalText '.' p.patch ++ p.labels)) :=
    hpatch.piece (by decide) _
  have hdot : Stops (· == '.') p.labels := p.stops_labels (by decide) (by decide)
  have hdots : p.minor = none → Stops (· == '.') (optionalText '.' p.patch ++ p.labels) := by
    intro hnone
    rw [h.minor_of_patch hnone]
    exact hdot
  unfold ofText?
  rw [text_eq, takeMark_append (stops_number h.major _)]
  dsimp only
  rw [takeNumber?_append h.major hminor]
  dsimp only [Option.bind_eq_bind, Option.bind_some]
  rw [takeDottedNumber?_append h.minor hpatch hdots]
  dsimp only [Option.bind_some]
  rw [takeDottedNumber?_append h.patch hlabels fun _ => hdot]
  dsimp only [Option.bind_some]
  rw [labels, takePreRelease?_append h.preRelease (p.stops_build (by decide))]
  dsimp only [Option.bind_some]
  rw [build?_eq_some_iff.2 ⟨h.build, rfl⟩]
  rfl

/-- The pieces `p` spell a text, which may have blanks around it. -/
structure Parts.Spells (p : Parts) (text : String) : Prop where
  wellFormed : p.WellFormed
  spelling : p.text = Text.strip text.toList

/-- **What is read** are the pieces that spell the text. -/
theorem Parts.spells_iff {p : Parts} {text : String} :
    p.Spells text ↔ ofText? (Text.strip text.toList) = some p := by
  constructor
  · rintro ⟨hp, htext⟩
    rw [← htext]
    exact hp.ofText?_text
  · intro h
    obtain ⟨hp, htext⟩ := ofText?_inv h
    exact ⟨hp, htext⟩

/-- A text is spelt in one way. -/
theorem Parts.Spells.unique {p q : Parts} {text : String} (hp : p.Spells text)
    (hq : q.Spells text) : p = q :=
  Option.some.inj ((spells_iff.1 hp).symm.trans (spells_iff.1 hq))

end Version

end PluginCatalog
