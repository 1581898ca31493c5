/-!
# Stable sorting

`stableSort le l` sorts `l` by insertion, for a total preorder `le` given as a test.

* The result is a rearrangement of `l` (`stableSort_perm`) and ascending (`stableSort_pairwise`).
* A list that is ascending already is left alone (`stableSort_eq_self`).
* Elements that are equal in the order keep their order (`filter_stableSort`).
* Elements can be selected before or after (`stableSort_filter`), and sorted by what they are mapped
  to (`stableSort_map`).
* Where no two elements are equal in the order, the order in which they came does not matter
  (`stableSort_eq_of_perm`).
* The last element of the result is the last one of the greatest (`isLastGreatest_stableSort`).
-/

namespace PluginCatalog

variable {α β : Type}

/-! ## Insertion -/

/-- Puts `a` in front of the first element that it does not exceed. -/
def insertSorted (le : α → α → Bool) (a : α) : List α → List α
  | [] => [a]
  | b :: l => if le a b then a :: b :: l else b :: insertSorted le a l

theorem insertSorted_perm (le : α → α → Bool) (a : α) (l : List α) :
    (insertSorted le a l).Perm (a :: l) := by
  induction l with
  | nil => exact .refl _
  | cons b l ih =>
    rw [insertSorted]
    split
    · exact .refl _
    · exact (ih.cons b).trans (.swap a b l)

theorem insertSorted_pairwise {le : α → α → Bool} (trans : ∀ a b c, le a b → le b c → le a c)
    (total : ∀ a b, le a b || le b a) (a : α) {l : List α} (h : l.Pairwise (fun x y => le x y)) :
    (insertSorted le a l).Pairwise (fun x y => le x y) := by
  induction l with
  | nil => simp [insertSorted]
  | cons b l ih =>
    obtain ⟨hb, hl⟩ := List.pairwise_cons.1 h
    rw [insertSorted]
    split
    next hab =>
      refine List.pairwise_cons.2 ⟨fun c hc => ?_, h⟩
      rcases List.mem_cons.1 hc with rfl | hc
      · exact hab
      · exact trans a b c hab (hb c hc)
    next hab =>
      refine List.pairwise_cons.2 ⟨fun c hc => ?_, ih hl⟩
      rcases List.mem_cons.1 ((insertSorted_perm le a l).mem_iff.1 hc) with rfl | hc
      · simpa [hab] using total c b
      · exact hb c hc

theorem insertSorted_eq_cons {le : α → α → Bool} {a : α} {l : List α}
    (h : ∀ b ∈ l, le a b) : insertSorted le a l = a :: l := by
  cases l with
  | nil => rfl
  | cons b l => simp [insertSorted, h b (by simp)]

theorem filter_insertSorted {le : α → α → Bool} {p : α → Bool} {a : α} {l : List α}
    (h : p a → ∀ b ∈ l, p b → le a b) :
    (insertSorted le a l).filter p = (a :: l).filter p := by
  induction l with
  | nil => rfl
  | cons b l ih =>
    rw [insertSorted]
    split
    · rfl
    next hab =>
      have ih := ih fun ha c hc => h ha c (by simp [hc])
      rw [List.filter_cons, ih]
      by_cases ha : p a = true
      · by_cases hb : p b = true
        · exact absurd (h ha b (by simp) hb) hab
        · simp [ha, hb]
      · by_cases hb : p b = true <;> simp [ha, hb]

theorem insertSorted_filter {le : α → α → Bool} (trans : ∀ a b c, le a b → le b c → le a c)
    {p : α → Bool} {a : α} (ha : p a) {l : List α} (h : l.Pairwise (fun x y => le x y)) :
    insertSorted le a (l.filter p) = (insertSorted le a l).filter p := by
  induction l with
  | nil => simp [insertSorted, ha]
  | cons b l ih =>
    obtain ⟨hb, hl⟩ := List.pairwise_cons.1 h
    rw [insertSorted]
    split
    next hab =>
      rw [List.filter_cons_of_pos ha]
      refine insertSorted_eq_cons fun c hc => ?_
      rcases List.mem_cons.1 (List.mem_filter.1 hc).1 with rfl | hc
      · exact hab
      · exact trans a b c hab (hb c hc)
    next hab =>
      by_cases hpb : p b
      · rw [List.filter_cons_of_pos hpb, List.filter_cons_of_pos hpb, insertSorted, if_neg hab,
          ih hl]
      · rw [List.filter_cons_of_neg hpb, List.filter_cons_of_neg hpb, ih hl]

theorem insertSorted_map (le : β → β → Bool) (f : α → β) (a : α) (l : List α) :
    insertSorted le (f a) (l.map f) = (insertSorted (fun a b => le (f a) (f b)) a l).map f := by
  induction l with
  | nil => rfl
  | cons b l ih =>
    rw [List.map_cons, insertSorted, insertSorted]
    split
    · rfl
    · rw [List.map_cons, ih]

/-! ## The sort -/

/-- The list in ascending order, equal elements in the order in which they came. -/
def stableSort (le : α → α → Bool) : List α → List α
  | [] => []
  | a :: l => insertSorted le a (stableSort le l)

/-- Sorting rearranges: nothing is lost, added or doubled. -/
theorem stableSort_perm (le : α → α → Bool) (l : List α) : (stableSort le l).Perm l := by
  induction l with
  | nil => exact .refl _
  | cons a l ih => exact (insertSorted_perm le a _).trans (ih.cons a)

theorem mem_stableSort {le : α → α → Bool} {l : List α} {a : α} : a ∈ stableSort le l ↔ a ∈ l :=
  (stableSort_perm le l).mem_iff

theorem length_stableSort (le : α → α → Bool) (l : List α) : (stableSort le l).length = l.length :=
  (stableSort_perm le l).length_eq

/-- The result is ascending. -/
theorem stableSort_pairwise {le : α → α → Bool} (trans : ∀ a b c, le a b → le b c → le a c)
    (total : ∀ a b, le a b || le b a) (l : List α) :
    (stableSort le l).Pairwise (fun x y => le x y) := by
  induction l with
  | nil => exact .nil
  | cons a l ih => exact insertSorted_pairwise trans total a ih

/-- A list that is ascending already is left alone. -/
theorem stableSort_eq_self {le : α → α → Bool} {l : List α} (h : l.Pairwise (fun x y => le x y)) :
    stableSort le l = l := by
  induction l with
  | nil => rfl
  | cons a l ih =>
    obtain ⟨ha, hl⟩ := List.pairwise_cons.1 h
    rw [stableSort, ih hl, insertSorted_eq_cons ha]

/-- Elements of a class in which none exceeds another keep their order. -/
theorem filter_stableSort {le : α → α → Bool} {p : α → Bool} {l : List α}
    (h : ∀ a ∈ l, p a → ∀ b ∈ l, p b → le a b) : (stableSort le l).filter p = l.filter p := by
  induction l with
  | nil => rfl
  | cons a l ih =>
    have ih := ih fun b hb hpb c hc => h b (by simp [hb]) hpb c (by simp [hc])
    rw [stableSort, filter_insertSorted fun ha b hb => h a (by simp) ha b
      (by simp [mem_stableSort.1 hb]), List.filter_cons, List.filter_cons, ih]

/-- Selecting and sorting can be done in either order. -/
theorem stableSort_filter {le : α → α → Bool} (trans : ∀ a b c, le a b → le b c → le a c)
    (total : ∀ a b, le a b || le b a) (p : α → Bool) (l : List α) :
    stableSort le (l.filter p) = (stableSort le l).filter p := by
  induction l with
  | nil => rfl
  | cons a l ih =>
    rw [stableSort]
    by_cases ha : p a
    · rw [List.filter_cons_of_pos ha, stableSort, ih,
        insertSorted_filter trans ha (stableSort_pairwise trans total l)]
    · rw [List.filter_cons_of_neg ha, ih, filter_insertSorted fun h => absurd h ha,
        List.filter_cons_of_neg ha]

/-- Elements can be sorted by what they are mapped to. -/
theorem stableSort_map (le : β → β → Bool) (f : α → β) (l : List α) :
    stableSort le (l.map f) = (stableSort (fun a b => le (f a) (f b)) l).map f := by
  induction l with
  | nil => rfl
  | cons a l ih => rw [List.map_cons, stableSort, stableSort, ih, insertSorted_map]

/-- Where no two elements are equal in the order, rearranged lists are sorted alike. -/
theorem stableSort_eq_of_perm {le : α → α → Bool} (trans : ∀ a b c, le a b → le b c → le a c)
    (total : ∀ a b, le a b || le b a) (antisymm : ∀ a b, le a b → le b a → a = b)
    {l l' : List α} (h : l.Perm l') : stableSort le l = stableSort le l' := by
  have hperm : (stableSort le l).Perm (stableSort le l') :=
    (stableSort_perm le l).trans (h.trans (stableSort_perm le l').symm)
  exact hperm.eq_of_pairwise (fun a b _ _ => antisymm a b) (stableSort_pairwise trans total l)
    (stableSort_pairwise trans total l')

/-! ## The last element -/

/-- Nothing before `a` exceeds it, and it exceeds what comes after. -/
def IsLastGreatest (le : α → α → Bool) (l : List α) (a : α) : Prop :=
  ∃ before after, l = before ++ a :: after ∧ (∀ b ∈ before, le b a) ∧ ∀ b ∈ after, ¬le a b

/-- Nothing exceeds it. -/
theorem IsLastGreatest.le {le : α → α → Bool} (total : ∀ a b, le a b || le b a) {l : List α}
    {a b : α} (h : IsLastGreatest le l a) (hb : b ∈ l) : le b a := by
  obtain ⟨before, after, rfl, hbefore, hafter⟩ := h
  rcases List.mem_append.1 hb with hb | hb
  · exact hbefore b hb
  · rcases List.mem_cons.1 hb with rfl | hb
    · simpa using total b b
    · simpa [hafter b hb] using total a b

theorem getLast?_insertSorted {le : α → α → Bool} (trans : ∀ a b c, le a b → le b c → le a c)
    {a b : α} {l : List α} (h : l.Pairwise (fun x y => le x y)) (hb : l.getLast? = some b) :
    (insertSorted le a l).getLast? = some (if le a b then b else a) := by
  induction l with
  | nil => cases hb
  | cons c l ih =>
    obtain ⟨hc, hl⟩ := List.pairwise_cons.1 h
    rw [insertSorted]
    cases l with
    | nil =>
      obtain rfl : c = b := by simpa using hb
      split <;> simp [insertSorted]
    | cons d l =>
      have hb : (d :: l).getLast? = some b := by simpa using hb
      split
      next hac =>
        have hab : le a b := trans a c b hac (hc b (List.mem_of_getLast? hb))
        rw [List.getLast?_cons_cons, List.getLast?_cons_cons, hb, if_pos hab]
      next =>
        rw [← ih hl hb]
        exact List.getLast?_cons_of_ne_nil (List.ne_nil_of_length_pos (by
          rw [(insertSorted_perm le a _).length_eq]
          simp))

/-- **The last element of the result** is the last one of the greatest. -/
theorem isLastGreatest_stableSort {le : α → α → Bool} (trans : ∀ a b c, le a b → le b c → le a c)
    (total : ∀ a b, le a b || le b a) {l : List α} {a : α}
    (h : (stableSort le l).getLast? = some a) : IsLastGreatest le l a := by
  induction l generalizing a with
  | nil => cases h
  | cons b l ih =>
    rw [stableSort] at h
    cases hl : (stableSort le l).getLast? with
    | none =>
      obtain rfl : l = [] := by
        simpa [List.getLast?_eq_none_iff, ← List.length_eq_zero_iff, length_stableSort] using hl
      obtain rfl : b = a := by simpa [stableSort, insertSorted] using h
      exact ⟨[], [], rfl, nofun, nofun⟩
    | some c =>
      have hc := ih hl
      rw [getLast?_insertSorted trans (stableSort_pairwise trans total l) hl] at h
      split at h
      next hbc =>
        obtain rfl : c = a := Option.some.inj h
        obtain ⟨before, after, rfl, hbefore, hafter⟩ := hc
        exact ⟨b :: before, after, rfl, List.forall_mem_cons.2 ⟨hbc, hbefore⟩, hafter⟩
      next hbc =>
        obtain rfl : b = a := Option.some.inj h
        -- What `b` does not exceed, `c` does not exceed either.
        exact ⟨[], l, rfl, nofun, fun d hd hbd => hbc (trans b d c hbd (hc.le total hd))⟩

end PluginCatalog
