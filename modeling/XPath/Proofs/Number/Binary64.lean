import Mathlib
import XPath.Number.Binary64

/-!
# Doubles and their bits

A double is put together from a sign and a magnitude, and taken apart into them again.  What the
bits unpack to in the logical model of doubles is read off the magnitude, and unless a double is no
number, nothing is lost on the way.

* `unpack_cases`: what the bits of a double unpack to;
* `isNaN_eq`, `isFinite_iff`: which doubles are no numbers or finite ones, by their magnitudes;
* `magnitude_ofMagnitude`: the magnitude of a double put together;
* `ofMagnitude_magnitude`: the double put together from its parts;
* `beq_of_magnitude_eq_zero`, `beq_self`: doubles that are numerically equal.
-/

namespace XPath.Number

open Float.Model (Format UnpackedFloat)
open Float.Model.UnpackedFloat (unpack unpackMantissa unpackExponent isNaNBits)

/-! ### The fields of a word -/

abbrev Word : Type :=
  BitVec Format.binary64.numBits

theorem unpackMantissa_eq_zero_iff (v : Word) : unpackMantissa v = 0#_ ↔ v.toNat % 2 ^ 52 = 0 := by
  have hm : (unpackMantissa v).toNat = v.toNat % 2 ^ 52 := by simp [unpackMantissa]
  rw [← BitVec.toNat_inj, hm]
  rfl

/-- The exponents of the doubles that are not finite are all ones. -/
theorem unpackExponent_eq_iff (v : Word) :
    unpackExponent v = -1#_ ↔ infiniteMagnitude ≤ v.toNat % 2 ^ 63 := by
  have he : (unpackExponent v).toNat = v.toNat / 2 ^ 52 % 2 ^ 11 := by
    simp [unpackExponent, Nat.shiftRight_eq_div_pow]
  rw [← BitVec.toNat_inj, he]
  show v.toNat / 2 ^ 52 % 2 ^ 11 = 2047 ↔ 2047 * 2 ^ 52 ≤ v.toNat % 2 ^ 63
  omega

/-- Among the doubles that are not finite, the infinite ones have no other bits. -/
theorem unpackMantissa_eq_zero_iff_of_le {v : Word} (hv : infiniteMagnitude ≤ v.toNat % 2 ^ 63) :
    unpackMantissa v = 0#_ ↔ v.toNat % 2 ^ 63 = infiniteMagnitude := by
  have hinfinite : infiniteMagnitude = 2047 * 2 ^ 52 := rfl
  rw [unpackMantissa_eq_zero_iff]
  omega

/-! ### Unpacking -/

theorem isNaNBits_eq (v : Word) : isNaNBits v = decide (infiniteMagnitude < v.toNat % 2 ^ 63) := by
  rw [isNaNBits, decide_eq_decide, unpackExponent_eq_iff]
  constructor
  · rintro ⟨hle, hne⟩
    exact lt_of_le_of_ne hle fun h => hne ((unpackMantissa_eq_zero_iff_of_le hle).2 h.symm)
  · intro hlt
    exact ⟨hlt.le, fun h => hlt.ne ((unpackMantissa_eq_zero_iff_of_le hlt.le).1 h).symm⟩

/-- Bits that are unpacked give no number above the infinite magnitude, an infinite one at it, and a
finite one below it. -/
theorem unpack_cases (v : Word) :
    (infiniteMagnitude < v.toNat % 2 ^ 63 ∧ unpack Format.binary64 v = .notANumber) ∨
    (v.toNat % 2 ^ 63 = infiniteMagnitude ∧ ∃ s, unpack Format.binary64 v = .infinity s) ∨
    (v.toNat % 2 ^ 63 < infiniteMagnitude ∧ (unpack Format.binary64 v).isFinite = true) := by
  simp only [unpack]
  split
  next hall =>
    have hle := (unpackExponent_eq_iff v).1 hall
    split
    next hzero => exact .inr (.inl ⟨(unpackMantissa_eq_zero_iff_of_le hle).1 hzero, _, rfl⟩)
    next hzero =>
      refine .inl ⟨lt_of_le_of_ne hle fun h => hzero ?_, rfl⟩
      exact (unpackMantissa_eq_zero_iff_of_le hle).2 h.symm
  next hall =>
    refine .inr (.inr ⟨Nat.not_le.1 fun hle => hall ((unpackExponent_eq_iff v).2 hle), ?_⟩)
    split
    · split <;> rfl
    · rfl

theorem isNaN_unpack (v : Word) :
    (unpack Format.binary64 v).isNaN = decide (infiniteMagnitude < v.toNat % 2 ^ 63) := by
  rcases unpack_cases v with ⟨h, hnan⟩ | ⟨h, s, hinfinite⟩ | ⟨h, hfinite⟩
  · rw [hnan, decide_eq_true h]
    rfl
  · rw [hinfinite, decide_eq_false (by omega)]
    rfl
  · rw [decide_eq_false (by omega)]
    cases hu : unpack Format.binary64 v with
    | notANumber =>
      rw [hu] at hfinite
      exact absurd hfinite (by decide)
    | _ => rfl

theorem isFinite_unpack (v : Word) :
    (unpack Format.binary64 v).isFinite = decide (v.toNat % 2 ^ 63 < infiniteMagnitude) := by
  rcases unpack_cases v with ⟨h, hnan⟩ | ⟨h, s, hinfinite⟩ | ⟨h, hfinite⟩
  · rw [hnan, decide_eq_false (by omega)]
    rfl
  · rw [hinfinite, decide_eq_false (by omega)]
    rfl
  · rw [hfinite, decide_eq_true h]

/-! ### Doubles -/

theorem isNaN_eq (x : Float) : x.isNaN = decide (infiniteMagnitude < magnitude x) :=
  isNaN_unpack x.toBits.toBitVec

theorem isFinite_iff (x : Float) : x.isFinite ↔ magnitude x < infiniteMagnitude := by
  have hfinite : x.isFinite = decide (magnitude x < infiniteMagnitude) :=
    isFinite_unpack x.toBits.toBitVec
  rw [hfinite, decide_eq_true_iff]

theorem isNaN_nan : nan.isNaN = true := by
  decide +kernel

theorem toBits_ofBits {w : UInt64} (hw : w.toNat % 2 ^ 63 ≤ infiniteMagnitude) :
    (Float.ofBits w).toBits = w := by
  have hpack := @UnpackedFloat.pack_unpack Format.binary64 w.toBitVec (by decide)
  have hnumber : @isNaNBits Format.binary64 w.toBitVec = false := by
    rw [isNaNBits_eq]
    exact decide_eq_false (Nat.not_lt.2 hw)
  rw [hnumber, if_neg Bool.false_ne_true] at hpack
  exact congrArg UInt64.ofBitVec hpack

section OfMagnitude

variable {negative : Bool} {b : Nat}

theorem toNat_toBits_ofMagnitude (hb : b ≤ infiniteMagnitude) :
    (ofMagnitude negative b).toBits.toNat = if negative then 2 ^ 63 + b else b := by
  have hinfinite : infiniteMagnitude = 2047 * 2 ^ 52 := rfl
  have hword : (UInt64.ofNat (if negative then 2 ^ 63 + b else b)).toNat
      = if negative then 2 ^ 63 + b else b := by
    rw [UInt64.toNat_ofNat', Nat.mod_eq_of_lt (by split <;> omega)]
  refine (congrArg UInt64.toNat (toBits_ofBits ?_)).trans hword
  refine (congrArg (· % 2 ^ 63) hword).trans_le ?_
  cases negative <;> simp <;> omega

theorem magnitude_ofMagnitude (hb : b ≤ infiniteMagnitude) :
    magnitude (ofMagnitude negative b) = b := by
  have hinfinite : infiniteMagnitude = 2047 * 2 ^ 52 := rfl
  rw [magnitude, toNat_toBits_ofMagnitude hb, Nat.pow_eq]
  cases negative <;> simp <;> omega

theorem isNaN_ofMagnitude (hb : b ≤ infiniteMagnitude) :
    (ofMagnitude negative b).isNaN = false := by
  rw [isNaN_eq, magnitude_ofMagnitude hb]
  exact decide_eq_false (Nat.not_lt.2 hb)

end OfMagnitude

/-- A double that is a number is put together from its sign and its magnitude. -/
theorem ofMagnitude_magnitude {x : Float} (hx : magnitude x ≤ infiniteMagnitude) :
    ofMagnitude (isNegative x) (magnitude x) = x := by
  have hlt : x.toBits.toNat < 2 ^ 64 := x.toBits.toNat_lt
  have hparts : (if isNegative x then 2 ^ 63 + magnitude x else magnitude x) = x.toBits.toNat := by
    rw [isNegative, magnitude, Nat.pow_eq]
    split
    · rename_i h
      have h := of_decide_eq_true h
      omega
    · rename_i h
      have h : ¬2 ^ 63 ≤ x.toBits.toNat := fun hle => h (decide_eq_true hle)
      omega
  exact Float.toBits_inj.1 (UInt64.toNat_inj.1 ((toNat_toBits_ofMagnitude hx).trans hparts))

/-! ### Numerical equality -/

theorem beq_self {x : Float} (hx : x.isNaN = false) : x == x := by
  rw [Float.isNaN_eq_decide_eq_nan, decide_eq_false_iff_not] at hx
  exact Float.beq_self_iff.2 hx

/-- Both zeros are the same number. -/
theorem beq_of_magnitude_eq_zero {x y : Float} (hx : magnitude x = 0) (hy : magnitude y = 0) :
    x == y := by
  have hparts := ofMagnitude_magnitude (x := x) (by omega)
  have hparts' := ofMagnitude_magnitude (x := y) (by omega)
  rw [← hparts, ← hparts', hx, hy]
  cases isNegative x <;> cases isNegative y <;> decide +kernel

end XPath.Number
