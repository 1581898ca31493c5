import PluginCatalog.Proofs.Decimal.Words
import PluginCatalog.Proofs.Literals
import PluginCatalog.Settings

/-!
# Values as durations

A duration is a number of seconds that is not below zero, and a value that is none is to be refused.

* `Value.IsTaken`, `Value.IsFaulty` and `Value.IsNan` tell which values are taken as durations,
  which of them end the reading with a fault, and which are taken although they are no number.
* `Settings.reads_seconds`: how a value is read as a duration. It is taken, refused, or a fault.
* `Settings.zero_le_of_seconds_iff`: what is taken is at least zero unless it is read as no number.
-/

namespace PluginCatalog

open Settings (toFloat? seconds)

namespace Value

/-- A value denotes a double that is not below zero. -/
def IsTaken (v : Value) : Prop := ∃ x, toFloat? v = .ok (some x) ∧ ¬x < 0

/-- An integer beyond all doubles. -/
def IsHuge (v : Value) : Prop :=
  ∃ n, v = .int n ∧ Decimal.twoTo 1024 - Decimal.twoTo 970 ≤ n.natAbs

/-- A value that is no integer, with an integer of more than 4300 digits in it. -/
def IsUnshowable (v : Value) : Prop := v.IsOverlong ∧ ∀ n, v ≠ .int n

/-- A value that is neither taken nor refused as a duration. -/
def IsFaulty (v : Value) : Prop := v.IsHuge ∨ v.IsUnshowable

/-- A value that is read as no number: the double that is none, or the word for it. -/
inductive IsNan : Value → Prop where
  | float {x : Float} (h : x.isNaN = true) : IsNan (.float x)
  | text {s : String} (h : Decimal.SpellsNan s.toList) : IsNan (.text s)
  | bytes {bs : List UInt8} (hascii : ∀ b ∈ bs, b < 128)
    (h : Decimal.SpellsNan (bs.map fun b => Char.ofNat b.toNat)) : IsNan (.bytes bs)

/-- An integer that is not beyond all doubles has a text. -/
theorem not_isOverlong_of_not_isHuge {n : Int} (h : ¬(int n).IsHuge) : ¬(int n).IsOverlong := by
  have hbound : Decimal.twoTo 1024 - Decimal.twoTo 970 ≤ Decimal.tenTo 4300 := by decide +kernel
  rw [isOverlong_int]
  exact fun hn => h ⟨n, rfl, hbound.trans hn⟩

end Value

namespace Settings

variable {v : Value} {x : Float} {name : String}

/-! ## Doubles of values -/

/-- **The double of a value is a fault** exactly for the integers beyond all doubles. -/
theorem toFloat?_eq_error_iff {cause : Fault} :
    toFloat? v = .error cause ↔ v.IsHuge ∧ cause = .numberTooLarge := by
  cases v with
  | int n =>
    have hhuge : (Value.int n).IsHuge ↔ Decimal.ofInt? n = none := by
      rw [Decimal.ofInt?_eq_none_iff]
      exact ⟨fun ⟨m, hm, h⟩ => Value.int.inj hm ▸ h, fun h => ⟨n, rfl, h⟩⟩
    rw [hhuge, toFloat?]
    cases Decimal.ofInt? n <;> simp [eq_comm]
  | _ => exact iff_of_false nofun fun ⟨⟨_, h, _⟩, _⟩ => nomatch h

/-- A value with a double can be shown. -/
theorem not_isOverlong_of_toFloat? (h : toFloat? v = .ok (some x)) : ¬v.IsOverlong := by
  cases v with
  | int n =>
    refine Value.not_isOverlong_of_not_isHuge fun hn => ?_
    cases (toFloat?_eq_error_iff.2 ⟨hn, rfl⟩).symm.trans h
  | bool => rintro ⟨n, ⟨⟩, -⟩
  | float => rintro ⟨n, ⟨⟩, -⟩
  | text => rintro ⟨n, ⟨⟩, -⟩
  | bytes => rintro ⟨n, ⟨⟩, -⟩
  | _ => cases h

/-- A value that denotes no double is no integer. -/
theorem ne_int_of_toFloat? (h : toFloat? v = .ok none) (n : Int) : v ≠ .int n := by
  rintro rfl
  rw [toFloat?] at h
  cases hn : Decimal.ofInt? n <;> simp [hn] at h

/-- A text that is read as a double spells the word for no number, or a number. -/
theorem isNaN_of_float?_iff {cs : List Char} (h : Decimal.float? cs = some x) :
    x.isNaN = true ↔ Decimal.SpellsNan cs := by
  rw [← Decimal.float?_isNaN_iff]
  constructor
  · exact fun hx => ⟨x, h, hx⟩
  · rintro ⟨y, hy, hx⟩
    cases h.symm.trans hy
    exact hx

/-- **The values that are read as no number.** -/
theorem isNaN_of_toFloat?_iff (h : toFloat? v = .ok (some x)) : x.isNaN = true ↔ v.IsNan := by
  cases v with
  | bool b =>
    cases h
    refine iff_of_false ?_ nofun
    cases b <;> decide +kernel
  | int n =>
    rw [toFloat?] at h
    cases hn : Decimal.ofInt? n with
    | none => simp [hn] at h
    | some y =>
      rw [hn] at h
      cases h
      exact iff_of_false (Bool.eq_false_iff.1 (Decimal.isNaN_of_ofInt? hn)) nofun
  | float y =>
    cases h
    exact ⟨.float, fun | .float h => h⟩
  | text s =>
    rw [isNaN_of_float?_iff (Except.ok.inj h)]
    exact ⟨.text, fun | .text h => h⟩
  | bytes bs =>
    have hread := Except.ok.inj h
    split at hread
    · next hascii =>
      rw [isNaN_of_float?_iff hread]
      rw [List.all_eq_true] at hascii
      exact ⟨.bytes fun b hb => decide_eq_true_iff.1 (hascii b hb), fun | .bytes _ h => h⟩
    · cases hread
  | _ => cases h

/-! ## Readings -/

/-- How a value is read as a duration. -/
inductive Reads (v : Value) : Except Failure Float → Prop where
  | taken {x : Float} (hx : toFloat? v = .ok (some x)) (h : ¬x < 0) : Reads v (.ok x)
  | refused (e : ConfigError) (ht : ¬v.IsTaken) (hf : ¬v.IsFaulty) : Reads v (.error (.config e))
  | fault (cause : Fault) (ht : ¬v.IsTaken) (hf : v.IsFaulty) : Reads v (.error (.fault cause))

theorem reads_refuse (e : String → ConfigError) (ht : ¬v.IsTaken)
    (hf : v.IsFaulty ↔ v.IsOverlong) : Reads v (refuse e v) := by
  unfold refuse
  cases hv : v.literal? with
  | some literal =>
    refine .refused _ ht fun hf' => ?_
    cases hv.symm.trans (Value.literal?_eq_none_iff v |>.2 (hf.1 hf'))
  | none => exact .fault _ ht (hf.2 (Value.literal?_eq_none_iff v |>.1 hv))

/-- **A value is taken as a duration, refused, or a fault.** -/
theorem reads_seconds (name : String) (v : Value) : Reads v (seconds name v) := by
  unfold seconds
  cases hv : toFloat? v with
  | error cause =>
    refine .fault cause ?_ (.inl (toFloat?_eq_error_iff.1 hv).1)
    rintro ⟨x, hx, -⟩
    cases hv.symm.trans hx
  | ok result =>
    have hhuge : ¬v.IsHuge := fun h => nomatch hv.symm.trans (toFloat?_eq_error_iff.2 ⟨h, rfl⟩)
    cases result with
    | none =>
      refine reads_refuse _ ?_ ?_
      · rintro ⟨x, hx, -⟩
        cases hv.symm.trans hx
      · exact ⟨fun h => (h.resolve_left hhuge).1, fun h => .inr ⟨h, ne_int_of_toFloat? hv⟩⟩
    | some x =>
      have hshown := not_isOverlong_of_toFloat? hv
      dsimp only
      split
      · next hx =>
        refine reads_refuse _ ?_ ?_
        · rintro ⟨y, hy, hy'⟩
          cases hv.symm.trans hy
          exact hy' hx
        · exact iff_of_false (fun h => hshown (h.resolve_left hhuge).1) hshown
      · next hx => exact .taken hv hx

/-- A value is taken as the double that it denotes. -/
theorem toFloat?_of_seconds (h : seconds name v = .ok x) : toFloat? v = .ok (some x) ∧ ¬x < 0 := by
  have hreads := reads_seconds name v
  rw [h] at hreads
  cases hreads with
  | taken hx h => exact ⟨hx, h⟩

theorem seconds_eq_ok_iff : (∃ x, seconds name v = .ok x) ↔ v.IsTaken := by
  constructor
  · rintro ⟨x, hx⟩
    exact ⟨x, toFloat?_of_seconds hx⟩
  · intro h
    have hreads := reads_seconds name v
    cases hr : seconds name v with
    | ok x => exact ⟨x, rfl⟩
    | error e =>
      rw [hr] at hreads
      cases hreads with
      | refused e ht hf => exact absurd h ht
      | fault cause ht hf => exact absurd h ht

theorem not_isFaulty_of_isTaken (h : v.IsTaken) : ¬v.IsFaulty := by
  obtain ⟨x, hx, -⟩ := h
  rintro (hhuge | hunshowable)
  · cases hx.symm.trans (toFloat?_eq_error_iff.2 ⟨hhuge, rfl⟩)
  · exact not_isOverlong_of_toFloat? hx hunshowable.1

/-- **What is a fault as a duration.** -/
theorem seconds_eq_fault_iff : (∃ cause, seconds name v = .error (.fault cause)) ↔ v.IsFaulty := by
  have hreads := reads_seconds name v
  generalize seconds name v = r at hreads
  cases hreads with
  | taken hx h => exact iff_of_false nofun (not_isFaulty_of_isTaken ⟨_, hx, h⟩)
  | refused e ht hf => exact iff_of_false nofun hf
  | fault cause ht hf => exact iff_of_true ⟨cause, rfl⟩ hf

/-- **What is taken as a duration** is at least zero, unless it is read as no number. -/
theorem zero_le_of_seconds_iff (h : seconds name v = .ok x) : 0 ≤ x ↔ ¬v.IsNan := by
  obtain ⟨hx, hnonneg⟩ := toFloat?_of_seconds h
  rw [Decimal.zero_le_iff, ← isNaN_of_toFloat?_iff hx, Bool.not_eq_true]
  exact and_iff_right hnonneg

end Settings

end PluginCatalog
