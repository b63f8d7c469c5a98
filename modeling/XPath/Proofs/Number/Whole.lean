import XPath.Proofs.Number.Text

/-!
# Whole numbers as texts

A whole number that a significand has room for is the only point of the interval around it on the
grid of whole numbers.  So the search for a short decimal ends on that grid or on a coarser one, and
with no other number: what is written are the digits of an integer.

* `Interval.le_power_search`: the search ends no later than on a grid with a hit;
* `Interval.eq_of_holds`: the only whole number in the interval around one;
* `positional_shortest`: the shortest decimal of a whole number in positional notation;
* `toText_eq_toString`: whole numbers are written as integers.
-/

namespace XPath.Number

/-! ### Digits of a multiple of a power of ten -/

theorem toDigits_mul_ten_pow {n : Nat} (hn : 0 < n) (k : Nat) :
    Nat.toDigits 10 (n * 10 ^ k) = Nat.toDigits 10 n ++ List.replicate k '0' := by
  induction k with
  | zero => simp
  | succ k ih =>
    have hpos : 0 < n * 10 ^ k := Nat.mul_pos hn (Nat.pow_pos (by decide))
    have hlast := Nat.toDigits_append_toDigits (b := 10) (d := 0) (by decide) hpos (by decide)
    rw [ih, Nat.toDigits_zero, List.append_assoc, ← List.replicate_succ'] at hlast
    rw [hlast, Nat.pow_succ, Nat.add_zero, Nat.mul_comm 10, Nat.mul_assoc]

/-- The digits of a decimal that is a whole number are those of the number. -/
theorem Decimal.positional_eq_toDigits {d : Decimal} (hpower : finest ≤ d.power)
    (hpos : 0 < d.coefficient) :
    d.positional = Nat.toDigits 10 (d.coefficient * 10 ^ (d.power - finest)) := by
  rw [toDigits_mul_ten_pow hpos, positional]
  exact if_pos hpower

/-! ### Where the search ends -/

theorem Decimal.le_power_strip (d : Decimal) : d.power ≤ d.strip.power := by
  induction d using Decimal.strip.induct with
  | case1 d h ih =>
    rw [strip, dif_pos h]
    exact (Nat.le_succ _).trans ih
  | case2 d h => rw [strip, dif_neg h]

/-- The points of a grid are points of each finer one. -/
theorem gridStep_add (power k : Nat) : gridStep (power + k) = 10 ^ k * gridStep power := by
  simp only [gridStep, Nat.pow_eq, Nat.pow_add]
  ring

namespace Interval

variable {tie : Tie} {i : Interval} {b w power limit : Nat}

/-- Where the value itself is a point of a grid, the grid has a hit. -/
theorem isSome_hit (hvalue : i.value = w * gridStep power) (h : i.holds i.value) :
    (i.hit tie power).isSome := by
  have hdiv : i.value / gridStep power * gridStep power = i.value := by
    rw [hvalue, Nat.mul_div_cancel _ (gridStep_pos power)]
  unfold hit
  simp only [hdiv, h]
  split
  · rfl
  · rfl
  · rename_i hvalue _
    exact absurd hvalue (by decide)
  · split_ifs <;> rfl

/-- The search ends no later than on a grid with a hit. -/
theorem le_power_search (h : (i.hit tie power).isSome) (hlimit : power ≤ limit) :
    power ≤ (i.search tie limit).power := by
  induction limit with
  | zero => exact hlimit
  | succ limit ih =>
    rw [search]
    split
    · exact hlimit
    · rename_i hnone
      refine ih (Nat.le_of_lt_succ (lt_of_le_of_ne hlimit ?_))
      rintro rfl
      simp [hnone] at h

/-! ### The interval around a whole number -/

theorem value_eq (hb : quanta b = w * one) : (ofMagnitude b).value = w * gridStep finest := by
  have hvalue : (ofMagnitude b).value = 4 * significand b * (2 ^ shift b * 10 ^ finest) := by
    rw [ofMagnitude_eq]
  have hb : significand b * 2 ^ shift b = w * one := hb
  rw [hvalue, gridStep, Nat.pow_eq]
  generalize 10 ^ finest = t
  generalize one = unit at hb ⊢
  calc 4 * significand b * (2 ^ shift b * t) = 4 * (significand b * 2 ^ shift b) * t := by ring
    _ = 4 * (w * unit) * t := by rw [hb]
    _ = w * (t * (4 * unit)) := by ring

/-- A whole number that a significand has room for is a multiple of steps that are not above one. -/
theorem two_pow_shift_le (hb : quanta b = w * one) (hw : w < 2 ^ 53) : 2 ^ shift b ≤ one := by
  have hb : significand b * 2 ^ shift b = w * one := hb
  by_contra hlt
  have hshift : shift b ≠ 0 := by
    intro hzero
    rw [hzero] at hlt
    exact hlt one_pos
  have hlarge : 2 * one ≤ 2 ^ shift b := by
    unfold one at hlt ⊢
    generalize 1074 = e at hlt ⊢
    rw [Nat.pow_eq] at hlt ⊢
    rw [← Nat.pow_succ']
    refine Nat.pow_le_pow_right (by decide) ?_
    exact (Nat.pow_lt_pow_iff_right (by decide)).1 (Nat.not_le.1 hlt)
  have hmul : 2 ^ 52 * (2 * one) ≤ w * one := by
    rw [← hb]
    exact Nat.mul_le_mul (le_significand hshift) hlarge
  rw [← Nat.mul_assoc, Nat.mul_le_mul_right_iff one_pos] at hmul
  omega

theorem holds_value (hb : b ≠ 0) : (ofMagnitude b).holds (ofMagnitude b).value := by
  have hlow := low_add_unit_le hb
  have hunit := unit_pos b
  exact holds_of_lt (by omega) (value_lt_high b)

theorem holds_le {x : Nat} (h : i.holds x) : i.low ≤ x ∧ x ≤ i.high := by
  unfold holds at h
  split at h <;> simp only [Bool.and_eq_true, decide_eq_true_eq] at h
  · exact h
  · exact ⟨h.1.le, h.2.le⟩

/-- The interval reaches at most half a step of its significand up and down. -/
theorem dist_le_of_holds {x : Nat} (h : (ofMagnitude b).holds x) :
    (ofMagnitude b).value ≤ x + 2 * (2 ^ shift b * 10 ^ finest) ∧
      x ≤ (ofMagnitude b).value + 2 * (2 ^ shift b * 10 ^ finest) := by
  obtain ⟨hlow, hhigh⟩ := holds_le h
  have hbelow : quartersBelow b ≤ 2 := by
    unfold quartersBelow
    split <;> decide
  rw [ofMagnitude_eq] at hlow hhigh ⊢
  simp only at hlow hhigh ⊢
  generalize 2 ^ shift b * 10 ^ finest = unit at *
  have hscale : 4 * significand b * unit
      ≤ (4 * significand b - quartersBelow b) * unit + 2 * unit := by
    rw [← Nat.add_mul]
    exact Nat.mul_le_mul_right _ (by omega)
  rw [Nat.add_mul] at hhigh
  exact ⟨by omega, hhigh⟩

/-- No other whole number lies in the interval around one. -/
theorem eq_of_holds {k : Nat} (hb : quanta b = w * one) (hw : w < 2 ^ 53)
    (h : (ofMagnitude b).holds (k * gridStep finest)) : k = w := by
  obtain ⟨hlow, hhigh⟩ := dist_le_of_holds h
  have hstep : 4 * (2 ^ shift b * 10 ^ finest) ≤ gridStep finest := by
    have hunit := Nat.mul_le_mul_right (10 ^ finest) (two_pow_shift_le hb hw)
    have hgrid : gridStep finest = 4 * (one * 10 ^ finest) := by
      rw [gridStep, Nat.pow_eq]
      ring
    omega
  have hpos := gridStep_pos finest
  rw [value_eq hb] at hlow hhigh
  generalize gridStep finest = step at *
  have hle : w < k + 1 := by
    refine Nat.lt_of_mul_lt_mul_right (a := step) ?_
    rw [Nat.succ_mul]
    omega
  have hge : k < w + 1 := by
    refine Nat.lt_of_mul_lt_mul_right (a := step) ?_
    rw [Nat.succ_mul]
    omega
  omega

/-- The search begins on the grid of whole numbers or on a coarser one. -/
theorem finest_le_digitCount (hpos : 0 < w) (hb : quanta b = w * one) :
    finest ≤ digitCount ((ofMagnitude b).value / gridStep 0) - 1 := by
  have hgrid : gridStep finest = 10 ^ finest * gridStep 0 := by
    rw [← gridStep_add, Nat.zero_add]
  have hlength := Nat.length_toDigits_pos (b := 10) (n := w)
  rw [value_eq hb, hgrid, ← Nat.mul_assoc, Nat.mul_div_cancel _ (gridStep_pos 0), digitCount,
    toDigits_mul_ten_pow hpos, List.length_append, List.length_replicate]
  omega

end Interval

/-! ### What is written -/

theorem quanta_zero : quanta 0 = 0 :=
  rfl

/-- The shortest decimal of a whole number is written as the number's digits. -/
theorem positional_shortest (tie : Tie) {b w : Nat} (hpos : 0 < w) (hb : quanta b = w * one)
    (hw : w < 2 ^ 53) : (shortest tie b).positional = Nat.toDigits 10 w := by
  have hne : b ≠ 0 := by
    rintro rfl
    rw [quanta_zero] at hb
    exact (Nat.mul_pos hpos one_pos).ne hb
  have hvalue := Interval.value_eq hb
  have hhit : (Interval.hit tie (Interval.ofMagnitude b) finest).isSome :=
    Interval.isSome_hit hvalue (Interval.holds_value hne)
  have hpower : finest ≤ (shortest tie b).power :=
    (Interval.le_power_search hhit (Interval.finest_le_digitCount hpos hb)).trans
      (Decimal.le_power_strip _)
  have hholds := holds_shortest tie hne
  obtain ⟨k, hk⟩ := Nat.exists_eq_add_of_le hpower
  generalize shortest tie b = d at *
  have hwhole : d.coefficient * 10 ^ k = w := by
    refine Interval.eq_of_holds hb hw ?_
    rwa [Decimal.units, hk, gridStep_add, ← Nat.mul_assoc] at hholds
  rw [Decimal.positional_eq_toDigits hpower, hk, Nat.add_sub_cancel_left, hwhole]
  refine Nat.pos_of_mul_pos_right (b := 10 ^ k) ?_
  omega

theorem toList_toString_neg {n : Nat} (hn : 0 < n) :
    (toString (-(n : Int))).toList = '-' :: Nat.toDigits 10 n := by
  rw [Int.toString_eq_repr, Int.repr_eq_if, if_neg (by omega), Int.neg_neg, Int.toNat_natCast,
    String.toList_append, Nat.toList_repr]
  rfl

theorem toList_toString_natCast (n : Nat) : (toString (n : Int)).toList = Nat.toDigits 10 n := by
  rw [Int.toString_eq_repr, Int.repr_eq_if, if_pos (by omega), Int.toNat_natCast, Nat.toList_repr]

/-- A whole number that a significand has room for is written as an integer. -/
theorem toText_eq_toString {x : Float} (hx : x.isFinite) (hfraction : hasFraction x = false)
    (hsmall : wholePart x < 2 ^ 53) :
    toText x = toString (if isNegative x then -(wholePart x : Int) else wholePart x) := by
  have hfinite := (isFinite_iff x).1 hx
  have hquanta : quanta (magnitude x) = wholePart x * one := by
    refine (Nat.div_mul_cancel (Nat.dvd_of_mod_eq_zero ?_)).symm
    simpa [hasFraction] using hfraction
  rcases Nat.eq_zero_or_pos (wholePart x) with hzero | hpos
  · have hmagnitude : magnitude x = 0 := by
      by_contra hne
      rw [hzero, Nat.zero_mul] at hquanta
      exact (Nat.mul_pos (significand_pos hne) (Nat.two_pow_pos _)).ne' hquanta
    rw [toText_of_magnitude_eq_zero hmagnitude, hzero]
    split <;> rfl
  · have hne : magnitude x ≠ 0 := by
      intro hzero
      rw [wholePart, hzero, quanta_zero, Nat.zero_div] at hpos
      exact lt_irrefl 0 hpos
    refine String.toList_injective ?_
    rw [toList_toText hne hfinite, positional_shortest .up hpos hquanta hsmall]
    split
    · exact (toList_toString_neg hpos).symm
    · exact (toList_toString_natCast _).symm

end XPath.Number
