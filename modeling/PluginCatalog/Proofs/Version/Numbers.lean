import PluginCatalog.Proofs.Execution

/-!
# The numbers of a written version

Reading a version fails on a written one only if one of its numbers has too many digits:
`Version.isWritten_of_short` says that it is told of any other text whether it is a version, and
`Version.isWritten_of_not_short` that of such a one it is not told.
-/

namespace PluginCatalog.Version

/-- The numbers of a written version as they are written, those of its identifiers at last. -/
def Parts.numbers (p : Parts) : List (List Char) :=
  p.major :: (p.minor.toList ++ p.patch.toList ++
    (p.preRelease.getD []).filter (·.all Char.isDigit))

/-- A text in which no number of a version has too many digits. -/
def IsShort (text : String) : Prop :=
  ∀ p, Parts.ofText? (Text.strip text.toList) = some p →
    ∀ n ∈ p.numbers, n.length ≤ maxDigits

instance (text : String) : Decidable (IsShort text) :=
  decidable_of_iff (∀ p ∈ Parts.ofText? (Text.strip text.toList),
    ∀ n ∈ p.numbers, n.length ≤ maxDigits) Iff.rfl

theorem number?_eq_ok {digits : List Char} (h : digits.length ≤ maxDigits) :
    number? digits = .ok (Text.numeralValue digits) := if_pos h

/-- A missing number is not overlong. -/
theorem number?_getD {digits : Option (List Char)}
    (h : ∀ n ∈ digits.toList, n.length ≤ maxDigits) : ∃ n, number? (digits.getD []) = .ok n := by
  cases digits with
  | none => exact ⟨0, rfl⟩
  | some ds => exact ⟨_, number?_eq_ok (h ds (by simp))⟩

theorem identifier?_eq_ok {cs : List Char} (h : cs.all Char.isDigit → cs.length ≤ maxDigits) :
    ∃ i, identifier? cs = .ok i := by
  unfold identifier?
  split
  next hd => exact ⟨_, by rw [number?_eq_ok (h hd)]; rfl⟩
  · exact ⟨_, rfl⟩

theorem mapM_identifier?_eq_ok {ids : List (List Char)}
    (h : ∀ cs ∈ ids, cs.all Char.isDigit → cs.length ≤ maxDigits) :
    ∃ is, ids.mapM identifier? = .ok is := by
  induction ids with
  | nil => exact ⟨[], rfl⟩
  | cons cs ids ih =>
    obtain ⟨i, hi⟩ := identifier?_eq_ok (h cs List.mem_cons_self)
    obtain ⟨is, his⟩ := ih fun c hc => h c (List.mem_cons_of_mem cs hc)
    exact ⟨i :: is, by rw [List.mapM_cons, hi, his]; rfl⟩

/-- Pieces without an overlong number are those of a version. -/
theorem ofParts_eq_ok {p : Parts} (h : ∀ n ∈ p.numbers, n.length ≤ maxDigits) :
    ∃ v, ofParts p = .ok v := by
  unfold Parts.numbers at h
  simp only [List.mem_cons, List.mem_append, forall_eq_or_imp] at h
  obtain ⟨hmajor, hrest⟩ := h
  obtain ⟨minor, hminor⟩ := number?_getD fun n hn => hrest n (.inl (.inl hn))
  obtain ⟨patch, hpatch⟩ := number?_getD fun n hn => hrest n (.inl (.inr hn))
  obtain ⟨ids, hids⟩ := mapM_identifier?_eq_ok fun cs hcs hd =>
    hrest cs (.inr (List.mem_filter.2 ⟨hcs, hd⟩))
  refine ⟨⟨Text.numeralValue p.major, minor, patch, ids⟩, ?_⟩
  unfold ofParts
  rw [number?_eq_ok hmajor, hminor, hpatch, hids]
  rfl

/-- **A text without an overlong number** is a written version or it is none. -/
theorem isWritten_of_short {text : String} (h : IsShort text) :
    ∃ b, isWritten (some text) = .ok b := by
  unfold isWritten parse? parse
  cases hp : Parts.ofText? (Text.strip text.toList) with
  | none => exact ⟨false, by simp [hp]⟩
  | some p =>
    obtain ⟨v, hv⟩ := ofParts_eq_ok (h p hp)
    exact ⟨true, by simp [hp, hv]⟩

/-! ## Overlong numbers -/

theorem number?_eq_ok_iff {digits : List Char} {n : Nat} :
    number? digits = .ok n ↔ digits.length ≤ maxDigits ∧ Text.numeralValue digits = n := by
  unfold number?
  split
  next h => simp [h]
  next h => simp [h]

theorem identifier?_inv {cs : List Char} {i : Identifier} (h : identifier? cs = .ok i)
    (hd : cs.all Char.isDigit) : cs.length ≤ maxDigits := by
  unfold identifier? at h
  rw [if_pos hd] at h
  rcases hn : number? cs with e | n
  · rw [hn] at h
    cases h
  · exact (number?_eq_ok_iff.1 hn).1

theorem mapM_identifier?_inv {ids : List (List Char)} {is : List Identifier}
    (h : ids.mapM identifier? = .ok is) :
    ∀ cs ∈ ids, cs.all Char.isDigit → cs.length ≤ maxDigits := by
  induction ids generalizing is with
  | nil => simp
  | cons cs ids ih =>
    rw [List.mapM_cons, bind_eq_ok_iff] at h
    obtain ⟨i, hi, h⟩ := h
    rw [bind_eq_ok_iff] at h
    obtain ⟨is', his, -⟩ := h
    exact List.forall_mem_cons.2 ⟨identifier?_inv hi, ih his⟩

/-- Pieces of a version have no overlong number. -/
theorem short_of_ofParts {p : Parts} {v : Version} (h : ofParts p = .ok v) :
    ∀ n ∈ p.numbers, n.length ≤ maxDigits := by
  unfold ofParts at h
  simp only [bind_eq_ok_iff, number?_eq_ok_iff] at h
  obtain ⟨-, ⟨hmajor, -⟩, -, ⟨hminor, -⟩, -, ⟨hpatch, -⟩, ids, hids, -⟩ := h
  unfold Parts.numbers
  simp only [List.mem_cons, List.mem_append, forall_eq_or_imp, Option.mem_toList, List.mem_filter]
  refine ⟨hmajor, ?_⟩
  rintro n ((hn | hn) | ⟨hn, hd⟩)
  · simpa [hn] using hminor
  · simpa [hn] using hpatch
  · exact mapM_identifier?_inv hids n hn hd

theorem errorIn_number? (digits : List Char) : ErrorIn (· = .overlong) (number? digits) := by
  unfold number?
  split
  · exact errorIn_ok _
  · exact errorIn_error rfl

theorem errorIn_identifier? (cs : List Char) : ErrorIn (· = .overlong) (identifier? cs) := by
  unfold identifier?
  split
  · rcases hn : number? cs with e | n
    · exact errorIn_error (errorIn_number? cs e hn)
    · exact errorIn_ok _
  · exact errorIn_ok _

/-- Pieces that are those of no version have an overlong number. -/
theorem errorIn_ofParts (p : Parts) : ErrorIn (· = .overlong) (ofParts p) := by
  unfold ofParts
  refine errorIn_bind (errorIn_number? _) fun major => ?_
  refine errorIn_bind (errorIn_number? _) fun minor => ?_
  refine errorIn_bind (errorIn_number? _) fun patch => ?_
  exact errorIn_bind (errorIn_mapM fun cs _ => errorIn_identifier? cs) fun ids => errorIn_ok _

/-- **A text with an overlong number** is not even told to be no version. -/
theorem isWritten_of_not_short {text : String} (h : ¬IsShort text) :
    isWritten (some text) = .error .overlong := by
  unfold isWritten parse? parse
  cases hp : Parts.ofText? (Text.strip text.toList) with
  | none => exact absurd (fun p hp' => by simp [hp] at hp') h
  | some p =>
    rcases hv : ofParts p with e | v
    · obtain rfl := errorIn_ofParts p e hv
      simp [hp, hv]
    · refine absurd (fun p' hp' => ?_) h
      obtain rfl := Option.some.inj (hp.symm.trans hp')
      exact short_of_ofParts hv

/-- Digits alone are a version with one number. -/
theorem ofText?_ones (n : Nat) :
    Parts.ofText? (List.replicate (n + 1) '1') =
      some ⟨false, List.replicate (n + 1) '1', none, none, none, none⟩ := by
  have hdigit : Text.isDigit '1' := by decide
  have hnumber : takeNumber? ('1' :: List.replicate n '1') =
      some ('1' :: List.replicate n '1', []) := by
    rw [takeNumber?, if_pos (by decide), List.takeWhile_replicate, List.dropWhile_replicate,
      if_pos hdigit, if_pos hdigit]
    decide
  rw [List.replicate_succ, Parts.ofText?, takeMark]
  · dsimp only
    rw [hnumber]
    rfl
  · simp

theorem not_isShort_ones {n : Nat} (h : maxDigits ≤ n) :
    ¬IsShort (String.ofList (List.replicate (n + 1) '1')) := by
  have hstrip : Text.strip (List.replicate (n + 1) '1') = List.replicate (n + 1) '1' := by
    apply Text.strip_eq_self
    · intro c hc
      rw [List.eq_of_mem_replicate (List.mem_of_mem_head? hc)]
      decide
    · intro c hc
      rw [List.eq_of_mem_replicate (List.mem_of_mem_getLast? hc)]
      decide
  intro hshort
  have hlen := hshort _ (by rw [String.toList_ofList, hstrip, ofText?_ones]) _ List.mem_cons_self
  rw [List.length_replicate] at hlen
  omega

end PluginCatalog.Version
