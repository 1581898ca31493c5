import Mathlib.Data.List.Basic
import PluginCatalog.Value

/-!
# Values that have no text

A message shows a value with all that is in it, down to its integers. `Value.Holds` says that an
integer stands somewhere in a value; `Value.literal?_eq_none_iff` and `Value.text?_eq_none_iff`: a
value has a text unless an overlong integer stands in it.
-/

namespace PluginCatalog.Value

/-- An integer stands in a value. -/
inductive Holds (n : Int) : Value → Prop where
  | int : Holds n (.int n)
  | item {items : List Value} {v : Value} (hv : v ∈ items) (h : Holds n v) : Holds n (.list items)
  | member {items : List Value} {v : Value} (hv : v ∈ items) (h : Holds n v) : Holds n (.set items)
  | key {entries : List (Value × Value)} {k v : Value} (he : (k, v) ∈ entries) (h : Holds n k) :
    Holds n (.map entries)
  | value {entries : List (Value × Value)} {k v : Value} (he : (k, v) ∈ entries) (h : Holds n v) :
    Holds n (.map entries)
  | first {a b : Value} (h : Holds n a) : Holds n (.pair a b)
  | second {a b : Value} (h : Holds n b) : Holds n (.pair a b)

/-- An integer with more than 4300 digits stands in a value. -/
def IsOverlong (v : Value) : Prop := ∃ n, v.Holds n ∧ Decimal.tenTo 4300 ≤ n.natAbs

theorem isOverlong_int {n : Int} : (int n).IsOverlong ↔ Decimal.tenTo 4300 ≤ n.natAbs := by
  constructor
  · rintro ⟨m, h, hm⟩
    cases h
    exact hm
  · exact fun h => ⟨n, .int, h⟩

theorem isOverlong_list {items : List Value} :
    (list items).IsOverlong ↔ ∃ v ∈ items, v.IsOverlong := by
  constructor
  · rintro ⟨n, h, hn⟩
    cases h with
    | item hv h => exact ⟨_, hv, n, h, hn⟩
  · rintro ⟨v, hv, n, h, hn⟩
    exact ⟨n, .item hv h, hn⟩

theorem isOverlong_set {items : List Value} :
    (set items).IsOverlong ↔ ∃ v ∈ items, v.IsOverlong := by
  constructor
  · rintro ⟨n, h, hn⟩
    cases h with
    | member hv h => exact ⟨_, hv, n, h, hn⟩
  · rintro ⟨v, hv, n, h, hn⟩
    exact ⟨n, .member hv h, hn⟩

theorem isOverlong_map {entries : List (Value × Value)} :
    (map entries).IsOverlong ↔ ∃ e ∈ entries, e.1.IsOverlong ∨ e.2.IsOverlong := by
  constructor
  · rintro ⟨n, h, hn⟩
    cases h with
    | key he h => exact ⟨_, he, .inl ⟨n, h, hn⟩⟩
    | value he h => exact ⟨_, he, .inr ⟨n, h, hn⟩⟩
  · rintro ⟨⟨k, v⟩, he, ⟨n, h, hn⟩ | ⟨n, h, hn⟩⟩
    · exact ⟨n, .key he h, hn⟩
    · exact ⟨n, .value he h, hn⟩

theorem isOverlong_pair {a b : Value} :
    (pair a b).IsOverlong ↔ a.IsOverlong ∨ b.IsOverlong := by
  constructor
  · rintro ⟨n, h, hn⟩
    cases h with
    | first h => exact .inl ⟨n, h, hn⟩
    | second h => exact .inr ⟨n, h, hn⟩
  · rintro (⟨n, h, hn⟩ | ⟨n, h, hn⟩)
    · exact ⟨n, .first h, hn⟩
    · exact ⟨n, .second h, hn⟩

theorem intText?_eq_none_iff {n : Int} : intText? n = none ↔ Decimal.tenTo 4300 ≤ n.natAbs := by
  unfold intText?
  split <;> simp_all

/-- A text of a value in which no integer stands. -/
theorem some_eq_none_iff {v : Value} (h : ∀ n, ¬v.Holds n) (s : String) :
    some s = none ↔ v.IsOverlong :=
  iff_of_false (Option.some_ne_none s) fun ⟨n, hn, _⟩ => h n hn

mutual

/-- **A value has no text** exactly if an overlong integer stands in it. -/
theorem literal?_eq_none_iff : (v : Value) → (literal? v = none ↔ v.IsOverlong)
  | .null => some_eq_none_iff (by rintro n ⟨⟩) _
  | .bool _ => some_eq_none_iff (by rintro n ⟨⟩) _
  | .int n => by rw [literal?, intText?_eq_none_iff, isOverlong_int]
  | .float _ => some_eq_none_iff (by rintro n ⟨⟩) _
  | .text _ => some_eq_none_iff (by rintro n ⟨⟩) _
  | .date _ => some_eq_none_iff (by rintro n ⟨⟩) _
  | .moment _ => some_eq_none_iff (by rintro n ⟨⟩) _
  | .bytes _ => some_eq_none_iff (by rintro n ⟨⟩) _
  | .list items => by
    rw [literal?, Option.map_eq_none_iff, literals?_eq_none_iff items, isOverlong_list]
  | .map entries => by
    rw [literal?, Option.map_eq_none_iff, entryLiterals?_eq_none_iff entries, isOverlong_map]
  | .set [] => by simp [isOverlong_set, literal?]
  | .set (v :: items) => by
    rw [literal?, Option.map_eq_none_iff, literals?_eq_none_iff (v :: items), isOverlong_set]
    exact List.cons_ne_nil v items
  | .pair a b => by
    rw [isOverlong_pair, ← literal?_eq_none_iff a, ← literal?_eq_none_iff b, literal?]
    cases literal? a <;> cases literal? b <;> simp
  | .cycle _ => some_eq_none_iff (by rintro n ⟨⟩) _

theorem literals?_eq_none_iff : (items : List Value) →
    (literals? items = none ↔ ∃ v ∈ items, v.IsOverlong)
  | [] => by simp [literals?]
  | v :: rest => by
    rw [List.exists_mem_cons_iff, ← literal?_eq_none_iff v, ← literals?_eq_none_iff rest, literals?]
    cases literal? v <;> cases literals? rest <;> simp

theorem entryLiterals?_eq_none_iff : (entries : List (Value × Value)) →
    (entryLiterals? entries = none ↔ ∃ e ∈ entries, e.1.IsOverlong ∨ e.2.IsOverlong)
  | [] => by simp [entryLiterals?]
  | (k, v) :: rest => by
    rw [List.exists_mem_cons_iff, ← literal?_eq_none_iff k, ← literal?_eq_none_iff v,
      ← entryLiterals?_eq_none_iff rest, entryLiterals?]
    cases literal? k <;> cases literal? v <;> cases entryLiterals? rest <;> simp

end

theorem text?_eq_none_iff (v : Value) : v.text? = none ↔ v.IsOverlong := by
  rw [← literal?_eq_none_iff]
  cases v <;> simp [text?, literal?]

end PluginCatalog.Value
