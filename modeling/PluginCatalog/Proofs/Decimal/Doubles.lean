import Mathlib
import PluginCatalog.Decimal.Numeral

/-!
# Which doubles numbers become

* `Decimal.zero_le_iff`: a double is at least zero if it is a number and not below zero.
* `Decimal.isNaN_signed`: bits up to those of infinity are those of a number, with either sign.
* `Decimal.nearestBits_le` and `Decimal.decimalBits_le`: rounding does not go beyond infinity.
* `Decimal.ofInt?_eq_none_iff`: the integers without a double are those from halfway between the
  largest double and the next power of two on.
-/

namespace PluginCatalog.Decimal

open Float.Model

/-! ## Order -/

theorem unpack_zero : (0 : Float).toModel.unpack = .zero .positive := by rfl

/-- **A double is at least zero** exactly if it is a number and not below zero. -/
theorem zero_le_iff {x : Float} : 0 ≤ x ↔ ¬x < 0 ∧ x.isNaN = false := by
  have hle : 0 ≤ x ↔ (UnpackedFloat.zero .positive).le x.toModel.unpack = true := by
    rw [← unpack_zero]
    exact decide_eq_true_iff
  have hlt : x < 0 ↔ x.toModel.unpack.lt (.zero .positive) = true := by
    rw [← unpack_zero]
    exact decide_eq_true_iff
  have hnan : x.isNaN = x.toModel.unpack.isNaN := rfl
  rw [hle, hlt, hnan]
  cases x.toModel.unpack with
  | notANumber => decide
  | infinity sign => revert sign; decide
  | zero sign => cases sign <;> exact iff_of_true rfl ⟨nofun, rfl⟩
  | finite sign m e hm =>
    cases sign with
    | negative => exact iff_of_false nofun fun h => h.1 rfl
    | positive => exact iff_of_true rfl ⟨nofun, rfl⟩

/-! ## Bits -/

/-- Bits of which the magnitude is not above that of infinity: unless all bits of the exponent are
set, and none of the fraction, they are finite. -/
theorem isNaNBits_eq_false {u : UInt64} (h : u.toNat % signBit ≤ infinityBits) :
    @UnpackedFloat.isNaNBits .binary64 u.toBitVec = false := by
  rw [UnpackedFloat.isNaNBits, decide_eq_false_iff_not]
  rintro ⟨hexponent, hfraction⟩
  rw [UnpackedFloat.unpackExponent_def] at hexponent
  rw [UnpackedFloat.unpackMantissa_def] at hfraction
  have hset : u.toNat / 2 ^ 52 % 2 ^ 11 = 2 ^ 11 - 1 := by
    have hnat := congrArg BitVec.toNat hexponent
    simpa [BitVec.extractLsb'_toNat, Nat.shiftRight_eq_div_pow] using hnat
  have hsome : u.toNat % 2 ^ 52 ≠ 0 := by
    intro h0
    refine hfraction (BitVec.eq_of_toNat_eq ?_)
    simpa [BitVec.extractLsb'_toNat] using h0
  simp only [signBit, infinityBits] at h
  omega

/-- **Bits up to those of infinity** are those of a number. -/
theorem isNaN_signed {negative : Bool} {bits : Nat} (h : bits ≤ infinityBits) :
    (signed negative bits).isNaN = false := by
  unfold signed
  have hbits : (UInt64.ofNat (if negative then signBit + bits else bits)).toNat % signBit =
      bits := by
    rw [UInt64.toNat_ofNat']
    simp only [signBit, infinityBits] at h ⊢
    split <;> omega
  generalize UInt64.ofNat _ = u at hbits
  have hnan := isNaNBits_eq_false (hbits.trans_le h)
  -- Bits of a number are kept as they are.
  have hvalid : Format.binary64.Valid u.toBitVec :=
    ⟨fun he hm => absurd (decide_eq_true ⟨he, hm⟩) (Bool.eq_false_iff.1 hnan)⟩
  have hkept : Float.ofBits u = ⟨⟨u, hvalid⟩⟩ := by
    unfold Float.ofBits Float.Model.ofBits Float.Model.pack
    simp only [UnpackedFloat.pack_unpack_of_valid hvalid]
  rw [hkept]
  refine Bool.eq_false_iff.2 fun hx => ?_
  have hpacked := (UnpackedFloat.isNaN_unpack_iff_of_valid hvalid).1 hx
  rw [hpacked, UnpackedFloat.isNaNBits_packedNaN] at hnan
  cases hnan

/-! ## Rounding -/

theorem roundHalfEven_bounds (num den : Nat) :
    num / den ≤ roundHalfEven num den ∧ roundHalfEven num den ≤ num / den + 1 := by
  unfold roundHalfEven
  dsimp only
  split <;> omega

/-- A fraction is rounded above an odd integer from halfway to the next integer on. -/
theorem lt_roundHalfEven_iff {num half m : Nat} (hhalf : 0 < half) (hm : m % 2 = 1) :
    m < roundHalfEven num (2 * half) ↔ (2 * m + 1) * half ≤ num := by
  have hsplit := Nat.div_add_mod num (2 * half)
  have hlt := Nat.mod_lt num (show 0 < 2 * half by omega)
  unfold roundHalfEven
  dsimp only
  generalize num / (2 * half) = q at *
  generalize num % (2 * half) = r at *
  rcases Nat.lt_trichotomy q m with hq | rfl | hq
  · have hmul : (q + 1) * half ≤ m * half := Nat.mul_le_mul_right half hq
    split <;> refine iff_of_false (by omega) ?_ <;> grind
  · split
    · refine iff_of_false (by omega) ?_
      grind
    · refine iff_of_true (by omega) ?_
      grind
  · have hmul : (m + 1) * half ≤ q * half := Nat.mul_le_mul_right half hq
    refine iff_of_true (by split <;> omega) ?_
    grind

theorem twoTo_le_twoTo {m n : Nat} (h : m ≤ n) : twoTo m ≤ twoTo n :=
  Nat.pow_le_pow_right (by decide) h

/-- On the grid `k` binary places below its leading digit, an integer has `k + 1` digits. -/
theorem scaleDown_natural {n : Nat} (hn : n ≠ 0) (k : Nat) :
    let s := scaleDown n 1 (n.log2 - k)
    twoTo k ≤ s.1 / s.2 ∧ s.1 / s.2 < twoTo (k + 1) := by
  have hlow : 2 ^ n.log2 ≤ n := Nat.log2_self_le hn
  have hhigh : n < 2 ^ (n.log2 + 1) := Nat.lt_log2_self
  have hpow (m : Nat) : twoTo m = 2 ^ m := rfl
  generalize n.log2 = l at hlow hhigh
  simp only [scaleDown, hpow, one_mul]
  rcases Nat.le_total k l with h | h
  · obtain ⟨d, rfl⟩ := Nat.exists_eq_add_of_le h
    have h₁ : (-(((k + d : Nat) : Int) - k)).toNat = 0 := by omega
    have h₂ : (((k + d : Nat) : Int) - k).toNat = d := by omega
    rw [h₁, h₂, pow_zero, mul_one]
    have hd : 0 < 2 ^ d := Nat.two_pow_pos d
    constructor
    · rw [Nat.le_div_iff_mul_le hd, ← pow_add]
      exact hlow
    · rw [Nat.div_lt_iff_lt_mul hd, ← pow_add]
      exact hhigh.trans_eq (by ring)
  · obtain ⟨d, rfl⟩ := Nat.exists_eq_add_of_le h
    have h₁ : (-((l : Int) - (l + d : Nat))).toNat = d := by omega
    have h₂ : ((l : Int) - (l + d : Nat)).toNat = 0 := by omega
    rw [h₁, h₂, pow_zero, Nat.div_one]
    have hd : 0 < 2 ^ d := Nat.two_pow_pos d
    constructor
    · rw [pow_add]
      exact Nat.mul_le_mul_right _ hlow
    · calc n * 2 ^ d < 2 ^ (l + 1) * 2 ^ d := Nat.mul_lt_mul_of_pos_right hhigh hd
        _ = 2 ^ (l + d + 1) := by ring

theorem gridExponent_natural {n : Nat} (hn : n ≠ 0) : gridExponent n 1 = n.log2 - 52 := by
  have h : twoTo 53 ≤ (scaleDown n 1 (n.log2 - 53)).1 / (scaleDown n 1 (n.log2 - 53)).2 :=
    (scaleDown_natural hn 53).1
  have hlog : ((1 : Nat).log2 : Int) = 0 := by decide
  unfold gridExponent
  rw [hlog, sub_zero]
  dsimp only
  rw [if_neg (Nat.not_lt.2 h)]
  omega

/-- The bits of an integer, from its exponent and its significand. -/
theorem nearestBits_natural {n : Nat} (hn : n ≠ 0) :
    let s := scaleDown n 1 (n.log2 - 52)
    let significand := roundHalfEven s.1 s.2
    twoTo 52 ≤ significand ∧ significand ≤ twoTo 53 ∧
      nearestBits n 1 =
        min ((n.log2 + 1023) * twoTo 52 + (significand - twoTo 52)) infinityBits := by
  intro s significand
  obtain ⟨hlow, hhigh⟩ : twoTo 52 ≤ s.1 / s.2 ∧ s.1 / s.2 < twoTo 53 := scaleDown_natural hn 52
  obtain ⟨hdown, hup⟩ := roundHalfEven_bounds s.1 s.2
  have hnormal : ¬significand < twoTo 52 := Nat.not_lt.2 (hlow.trans hdown)
  have hexponent : ((n.log2 : Int) - 52 + 1075).toNat = n.log2 + 1023 := by omega
  refine ⟨hlow.trans hdown, hup.trans hhigh, ?_⟩
  unfold nearestBits
  rw [if_neg hn, gridExponent_natural hn]
  dsimp only
  rw [if_neg hnormal, hexponent]

/-- **Integers round to infinity** from halfway between the largest double and the next power of
two on: the significand of the largest double is odd. -/
theorem nearestBits_eq_infinityBits_iff {n : Nat} :
    nearestBits n 1 = infinityBits ↔ twoTo 1024 - twoTo 970 ≤ n := by
  by_cases hn : n = 0
  · subst hn
    decide +kernel
  have hlow : twoTo n.log2 ≤ n := Nat.log2_self_le hn
  have hhigh : n < twoTo (n.log2 + 1) := Nat.lt_log2_self
  obtain ⟨hnormal, hlarge, hbits⟩ := nearestBits_natural hn
  have hinf : infinityBits = 2047 * twoTo 52 := by decide +kernel
  have hdouble : twoTo 53 = 2 * twoTo 52 := by decide +kernel
  have hpos : 0 < twoTo 52 := by decide +kernel
  rw [hbits, min_eq_right_iff, hinf]
  rcases Nat.lt_trichotomy n.log2 1023 with hl | hl | hl
  · have hbelow : twoTo (n.log2 + 1) ≤ twoTo 1023 := twoTo_le_twoTo hl
    have hbound : twoTo 1023 ≤ twoTo 1024 - twoTo 970 := by decide +kernel
    have hscaled : (n.log2 + 1023) * twoTo 52 ≤ 2045 * twoTo 52 :=
      Nat.mul_le_mul_right _ (by omega)
    exact iff_of_false (by omega) (by omega)
  · -- Only a significand that is rounded up to the next power of two gives infinity.
    have hscale : scaleDown n 1 (n.log2 - 52) = (n, 2 * twoTo 970) := by
      have h₁ : (-((n.log2 : Int) - 52)).toNat = 0 := by omega
      have h₂ : ((n.log2 : Int) - 52).toNat = 971 := by omega
      have h₃ : twoTo 971 = 2 * twoTo 970 := by decide +kernel
      have h₄ : twoTo 0 = 1 := rfl
      rw [scaleDown, h₁, h₂, h₃, h₄, mul_one, one_mul]
    have hup : twoTo 53 - 1 < roundHalfEven n (2 * twoTo 970) ↔
        (2 * (twoTo 53 - 1) + 1) * twoTo 970 ≤ n :=
      lt_roundHalfEven_iff (by decide +kernel) (by decide +kernel)
    have hbound : (2 * (twoTo 53 - 1) + 1) * twoTo 970 = twoTo 1024 - twoTo 970 := by
      decide +kernel
    rw [hscale] at hnormal hlarge ⊢
    dsimp only at hnormal hlarge ⊢
    rw [hbound] at hup
    rw [hl, ← hup]
    omega
  · have habove : twoTo 1024 ≤ twoTo n.log2 := twoTo_le_twoTo hl
    have hscaled : 2047 * twoTo 52 ≤ (n.log2 + 1023) * twoTo 52 :=
      Nat.mul_le_mul_right _ (by omega)
    exact iff_of_true (by omega) (by omega)

/-- **The integers without a double.** -/
theorem ofInt?_eq_none_iff {n : Int} : ofInt? n = none ↔ twoTo 1024 - twoTo 970 ≤ n.natAbs := by
  rw [← nearestBits_eq_infinityBits_iff]
  unfold ofInt?
  dsimp only
  split <;> simp_all

theorem nearestBits_le (num den : Nat) : nearestBits num den ≤ infinityBits := by
  unfold nearestBits
  split
  · exact Nat.zero_le _
  · exact Nat.min_le_right _ _

theorem decimalBits_le (n : Nat) (exponent : Int) : decimalBits n exponent ≤ infinityBits := by
  unfold decimalBits
  dsimp only
  split
  · exact Nat.zero_le _
  · split
    · exact le_refl _
    · exact nearestBits_le _ _

theorem isNaN_of_ofInt? {n : Int} {x : Float} (h : ofInt? n = some x) : x.isNaN = false := by
  unfold ofInt? at h
  dsimp only at h
  split at h
  · cases h
  · obtain rfl := Option.some.inj h
    exact isNaN_signed (nearestBits_le _ _)

end PluginCatalog.Decimal
