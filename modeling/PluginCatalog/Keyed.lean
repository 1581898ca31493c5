/-!
# Lists with keys

* `putBy key a l` puts `a` into a list in which an element is told apart by its key: it takes the
  place of the first element of its key, or comes last.
* What is in the list afterwards is `mem_putBy`, for a list without two elements of one key;
  `nodup_putBy` keeps it so.
* `lookup_putBy` is the same for a list of keys with values.
-/

namespace PluginCatalog

variable {α κ : Type} [DecidableEq κ]

/-- Puts `a` in the place of the first element of its key, or at the end. -/
def putBy (key : α → κ) (a : α) : List α → List α
  | [] => [a]
  | b :: l => if key b = key a then a :: l else b :: putBy key a l

theorem mem_putBy_self (key : α → κ) (a : α) (l : List α) : a ∈ putBy key a l := by
  induction l with
  | nil => simp [putBy]
  | cons b l ih => rw [putBy]; split <;> simp [ih]

/-- An element of another key stays. -/
theorem mem_putBy_of_ne {key : α → κ} {a b : α} {l : List α} (hb : b ∈ l) (h : key b ≠ key a) :
    b ∈ putBy key a l := by
  induction l with
  | nil => cases hb
  | cons c l ih =>
    rw [putBy]
    split
    next hc =>
      rcases List.mem_cons.1 hb with rfl | hb
      · exact absurd hc h
      · exact List.mem_cons_of_mem a hb
    next =>
      rcases List.mem_cons.1 hb with rfl | hb
      · exact List.mem_cons_self
      · exact List.mem_cons_of_mem c (ih hb)

theorem eq_or_mem_of_mem_putBy {key : α → κ} {a b : α} {l : List α} (h : b ∈ putBy key a l) :
    b = a ∨ b ∈ l := by
  induction l with
  | nil => exact .inl (by simpa [putBy] using h)
  | cons c l ih =>
    rw [putBy] at h
    split at h
    · exact (List.mem_cons.1 h).imp id (List.mem_cons_of_mem c)
    · rcases List.mem_cons.1 h with rfl | h
      · exact .inr List.mem_cons_self
      · exact (ih h).imp id (List.mem_cons_of_mem c)

/-- What is told from the elements afterwards, if it does not tell elements of one key apart. -/
theorem mem_map_putBy {key : α → κ} {a : α} {l : List α} {β : Type} {g : α → β}
    (hg : ∀ b, key b = key a → g b = g a) {x : β} :
    x ∈ (putBy key a l).map g ↔ x = g a ∨ x ∈ l.map g := by
  induction l with
  | nil => simp [putBy]
  | cons b l ih =>
    rw [putBy]
    split
    next h => simp [hg b h]
    next h => simp only [List.map_cons, List.mem_cons, ih]; exact or_left_comm

/-- Keys stay unique. -/
theorem nodup_putBy {key : α → κ} {a : α} {l : List α} (h : (l.map key).Nodup) :
    ((putBy key a l).map key).Nodup := by
  induction l with
  | nil => simp [putBy]
  | cons b l ih =>
    obtain ⟨hb, hl⟩ := List.nodup_cons.1 h
    rw [putBy]
    split
    next hk => exact List.nodup_cons.2 ⟨hk ▸ hb, hl⟩
    next hk =>
      refine List.nodup_cons.2 ⟨fun hm => ?_, ih hl⟩
      exact (mem_map_putBy fun _ h => h).1 hm |>.elim hk hb

/-- **What is in the list afterwards**: the new element, and those of other keys. -/
theorem mem_putBy {key : α → κ} {a b : α} {l : List α} (h : (l.map key).Nodup) :
    b ∈ putBy key a l ↔ b = a ∨ b ∈ l ∧ key b ≠ key a := by
  refine ⟨fun hb => ?_, ?_⟩
  · induction l with
    | nil => exact .inl (by simpa [putBy] using hb)
    | cons c l ih =>
      obtain ⟨hc, hl⟩ := List.nodup_cons.1 h
      rw [putBy] at hb
      split at hb
      next hk =>
        rcases List.mem_cons.1 hb with rfl | hb
        · exact .inl rfl
        · refine .inr ⟨List.mem_cons_of_mem c hb, fun hba => hc ?_⟩
          rw [hk, ← hba]
          exact List.mem_map_of_mem hb
      next hk =>
        rcases List.mem_cons.1 hb with rfl | hb
        · exact .inr ⟨List.mem_cons_self, hk⟩
        · exact (ih hl hb).imp id fun ⟨hm, hn⟩ => ⟨List.mem_cons_of_mem c hm, hn⟩
  · rintro (rfl | ⟨hb, hk⟩)
    · exact mem_putBy_self key b l
    · exact mem_putBy_of_ne hb hk

variable [BEq κ] [LawfulBEq κ]

theorem lookup_cons (k k' : κ) (v : α) (l : List (κ × α)) :
    ((k, v) :: l).lookup k' = if k' = k then some v else l.lookup k' := by
  by_cases h : k' = k
  · simp [h]
  · have hb : (k' == k) = false := beq_eq_false_iff_ne.2 h
    simp [List.lookup_cons, h, hb]

/-- Looking up after a value was put under a key. -/
theorem lookup_putBy (k k' : κ) (v : α) (l : List (κ × α)) :
    (putBy Prod.fst (k, v) l).lookup k' = if k' = k then some v else l.lookup k' := by
  induction l with
  | nil => simp only [putBy, lookup_cons]
  | cons b l ih =>
    obtain ⟨kb, vb⟩ := b
    rw [putBy]
    split
    next hk =>
      obtain rfl : kb = k := hk
      simp only [lookup_cons]
      by_cases h : k' = kb <;> simp [h]
    next hk =>
      simp only [lookup_cons, ih]
      by_cases h : k' = kb
      · have hne : kb ≠ k := hk
        simp [h, hne]
      · simp [h]

end PluginCatalog
