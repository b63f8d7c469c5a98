import Mathlib.Tactic.Ring
import XPath.Proofs.Number.Rounding

/-!
# The shortest decimal reads back

The interval around a magnitude is described in exact integers.  Every decimal that the search for
a short one can end with lies in it, and a quotient that a decimal of the interval stands for is
rounded to the magnitude.

* `Decimal.units`: a decimal in the unit of the intervals;
* `Interval.ofMagnitude_eq`: the interval around a magnitude;
* `near_of_holds`: a quotient in the interval is close to the magnitude;
* `Interval.holds_search`: the search ends in the interval, even on the finest grid;
* `holds_shortest`: the shortest decimal lies in the interval.
-/

namespace XPath.Number

/-! ### Decimals and grids -/

/-- How many times `10⁻³⁴⁰ · 2⁻¹⁰⁷⁶` a decimal is. -/
def Decimal.units (d : Decimal) : Nat :=
  d.coefficient * gridStep d.power

theorem one_pos : 0 < one := by
  unfold one
  generalize 1074 = n
  exact Nat.two_pow_pos n

theorem gridStep_pos (power : Nat) : 0 < gridStep power :=
  Nat.mul_pos (Nat.pow_pos (by decide)) (Nat.mul_pos (by decide) one_pos)

theorem gridStep_succ (power : Nat) : gridStep (power + 1) = 10 * gridStep power := by
  simp only [gridStep, Nat.pow_eq, Nat.pow_succ]
  ring

/-- Without zeros at its end a decimal has the same value. -/
theorem Decimal.units_strip (d : Decimal) : d.strip.units = d.units := by
  induction d using Decimal.strip.induct with
  | case1 d h ih =>
    rw [strip, dif_pos h, ih, units, units, gridStep_succ, ← Nat.mul_assoc,
      Nat.div_mul_cancel (Nat.dvd_of_mod_eq_zero h.2)]
  | case2 d h => rw [strip, dif_neg h]

/-! ### The interval around a magnitude -/

/-- The interval around a magnitude, in quarters of a step of its significand. -/
theorem Interval.ofMagnitude_eq (b : Nat) : Interval.ofMagnitude b =
    ⟨4 * significand b * (2 ^ shift b * 10 ^ finest),
      (4 * significand b - quartersBelow b) * (2 ^ shift b * 10 ^ finest),
      (4 * significand b + 2) * (2 ^ shift b * 10 ^ finest), significand b % 2 == 0⟩ := by
  have hbelow : (if significand b == Nat.pow 2 52 && shift b != 0 then 1 else 2)
      = quartersBelow b := by
    simp [quartersBelow]
  simp only [ofMagnitude, hbelow, Nat.pow_eq]

/-- A quotient in the interval around a magnitude is close to the magnitude. -/
theorem near_of_holds {b n d x : Nat} (hd : 0 < d) (hx : x * d = 4 * n * 10 ^ finest)
    (h : (Interval.ofMagnitude b).holds x) :
    Near (significand b) (shift b) (quartersBelow b) n d := by
  have hunit : 0 < 10 ^ finest := Nat.pow_pos (by decide)
  -- the ends of the interval and the quotient, both multiplied out
  have hscale : ∀ c, c * (2 ^ shift b * 10 ^ finest) * d = c * (d * 2 ^ shift b) * 10 ^ finest :=
    fun c => by ring
  have hle : ∀ c, c * (2 ^ shift b * 10 ^ finest) ≤ x ↔ c * (d * 2 ^ shift b) ≤ 4 * n := fun c => by
    rw [← Nat.mul_le_mul_right_iff hd, hscale, hx, Nat.mul_le_mul_right_iff hunit]
  have hge : ∀ c, x ≤ c * (2 ^ shift b * 10 ^ finest) ↔ 4 * n ≤ c * (d * 2 ^ shift b) := fun c => by
    rw [← Nat.mul_le_mul_right_iff hd, hscale, hx, Nat.mul_le_mul_right_iff hunit]
  have hlow : 4 * (significand b * (d * 2 ^ shift b))
      ≤ (4 * significand b - quartersBelow b) * (d * 2 ^ shift b)
        + quartersBelow b * (d * 2 ^ shift b) := by
    rw [← Nat.add_mul, ← Nat.mul_assoc]
    exact Nat.mul_le_mul_right _ le_tsub_add
  have hhigh : (4 * significand b + 2) * (d * 2 ^ shift b)
      = 4 * (significand b * (d * 2 ^ shift b)) + 2 * (d * 2 ^ shift b) := by ring
  rw [Interval.ofMagnitude_eq, Interval.holds] at h
  split at h
  · rename_i heven
    simp only [Bool.and_eq_true, decide_eq_true_eq, hle, hge] at h
    refine ⟨by omega, by omega, fun hodd => ?_⟩
    simp [hodd] at heven
  · simp only [Bool.and_eq_true, decide_eq_true_eq, ← not_le, hle, hge] at h
    exact ⟨by omega, by omega, fun _ => by omega⟩

namespace Interval

variable {tie : Tie} {i : Interval} {b c power : Nat}

theorem holds_of_lt {x : Nat} (hlow : i.low < x) (hhigh : x < i.high) : i.holds x := by
  simp [holds, hlow, hhigh, hlow.le, hhigh.le]

/-! ### The finest grid -/

theorem unit_pos (b : Nat) : 0 < 2 ^ shift b * 10 ^ finest :=
  Nat.mul_pos (Nat.two_pow_pos _) (Nat.pow_pos (by decide))

theorem low_add_unit_le (hb : b ≠ 0) :
    (ofMagnitude b).low + 2 ^ shift b * 10 ^ finest ≤ (ofMagnitude b).value := by
  have hm := significand_pos hb
  have hbelow := quartersBelow_pos b
  rw [ofMagnitude_eq]
  show (4 * significand b - quartersBelow b) * _ + _ ≤ 4 * significand b * _
  rw [← Nat.succ_mul]
  exact Nat.mul_le_mul_right _ (by omega)

theorem value_lt_high (b : Nat) : (ofMagnitude b).value < (ofMagnitude b).high := by
  rw [ofMagnitude_eq]
  exact Nat.mul_lt_mul_of_pos_right (Nat.lt_add_of_pos_right (by decide)) (unit_pos b)

theorem two_pow_le_ten_pow (n : Nat) : 2 ^ (33 * n) ≤ 10 ^ (10 * n) := by
  rw [Nat.pow_mul, Nat.pow_mul]
  exact Nat.pow_le_pow_left (by decide) n

/-- The step of the finest grid is less than the unit of any interval. -/
theorem gridStep_zero_lt : gridStep 0 < 10 ^ finest := by
  have hfinest : finest = 10 * 34 := rfl
  generalize hn : 34 = n at hfinest
  unfold gridStep one
  generalize he : 1074 = e
  rw [hfinest, Nat.pow_eq, Nat.pow_eq, Nat.pow_zero, Nat.one_mul]
  calc 4 * 2 ^ e = 2 ^ (e + 2) := by ring
    _ < 2 ^ (33 * n) := Nat.pow_lt_pow_right (by decide) (by omega)
    _ ≤ 10 ^ (10 * n) := two_pow_le_ten_pow n

/-- The point of the finest grid below the value lies in the interval. -/
theorem holds_finest (hb : b ≠ 0) :
    (ofMagnitude b).holds ((ofMagnitude b).value / gridStep 0 * gridStep 0) := by
  have hstep := gridStep_zero_lt
  have hmod := Nat.mod_lt (ofMagnitude b).value (gridStep_pos 0)
  have hdiv := Nat.div_add_mod' (ofMagnitude b).value (gridStep 0)
  have hunit : 10 ^ finest ≤ 2 ^ shift b * 10 ^ finest :=
    Nat.le_mul_of_pos_left _ (Nat.two_pow_pos _)
  have hlow := low_add_unit_le hb
  have hhigh := value_lt_high b
  generalize ofMagnitude b = i at *
  generalize i.value / gridStep 0 * gridStep 0 = x at *
  generalize gridStep 0 = step at *
  generalize 10 ^ finest = t at *
  exact holds_of_lt (by omega) (by omega)

/-! ### The search -/

/-- What is hit on a grid lies in the interval. -/
theorem holds_of_hit (h : i.hit tie power = some c) : i.holds (c * gridStep power) := by
  unfold hit at h
  simp only at h
  split at h
  · rename_i hbelow _
    obtain rfl := Option.some.inj h
    exact hbelow
  · rename_i habove
    obtain rfl := Option.some.inj h
    exact habove
  · simp at h
  · rename_i hbelow habove
    have hc : i.value / gridStep power = c ∨ i.value / gridStep power + 1 = c := by
      split_ifs at h
      · exact .inl (Option.some.inj h)
      · exact .inr (Option.some.inj h)
      · exact .inl (Option.some.inj h)
      · exact .inr (Option.some.inj h)
    rcases hc with rfl | rfl
    · exact hbelow
    · exact habove

/-- The search ends in the interval if it does so on the finest grid. -/
theorem holds_search (h : i.holds (i.value / gridStep 0 * gridStep 0)) (power : Nat) :
    i.holds (i.search tie power).units := by
  induction power with
  | zero => rwa [search, Decimal.units]
  | succ power ih =>
    rw [search]
    split
    · rename_i c hhit
      exact holds_of_hit hhit
    · exact ih

end Interval

/-- The shortest decimal of a magnitude lies in the interval around it. -/
theorem holds_shortest (tie : Tie) {b : Nat} (hb : b ≠ 0) :
    (Interval.ofMagnitude b).holds (shortest tie b).units := by
  rw [shortest, Decimal.units_strip]
  exact Interval.holds_search (Interval.holds_finest hb) _

end XPath.Number
