import Mathlib.Algebra.Order.Group.Nat
import XPath.Number.Shortest

/-!
# Rounding to the nearest double

A quotient of quanta is rounded in two steps: its whole part tells how many binary digits are too
many, and what is left is rounded to a whole number.  A quotient close to a magnitude is rounded to
that magnitude.  Just below a power of two the first step finds one digit less, and the second one
rounds up to a significand of one digit more, which makes up for it.

* `divNearest_eq`: rounding to a whole number;
* `shift_add_significand`, `significand_lt`, `le_significand`: a magnitude in two parts;
* `Near`: the quotients close to a magnitude;
* `Near.nearest_eq`: what they are rounded to.
-/

namespace XPath.Number

/-! ### Rounding to a whole number -/

/-- A quotient at most one half away from a whole number is rounded to it, if the number is even or
the quotient is closer than that. -/
theorem divNearest_eq {n d m : Nat} (hd : 0 < d) (hlow : 2 * (m * d) ≤ 2 * n + d)
    (hhigh : 2 * n ≤ 2 * (m * d) + d)
    (hodd : m % 2 = 1 → 2 * (m * d) < 2 * n + d ∧ 2 * n < 2 * (m * d) + d) :
    divNearest n d = m := by
  have hr : n % d < d := Nat.mod_lt n hd
  have hn : n / d * d + n % d = n := Nat.div_add_mod' n d
  unfold divNearest
  simp only [Bool.or_eq_true, decide_eq_true_eq, Bool.and_eq_true, beq_iff_eq]
  generalize n / d = q at hn
  generalize n % d = r at hr hn
  -- rounded down, the quotient is the whole number or the one before it
  have hle : q ≤ m := by
    by_contra hlt
    have hmul := Nat.mul_le_mul_right d (show m + 1 ≤ q by omega)
    rw [Nat.add_mul] at hmul
    omega
  have hge : m ≤ q + 1 := by
    by_contra hlt
    have hmul := Nat.mul_le_mul_right d (show q + 2 ≤ m by omega)
    rw [Nat.add_mul] at hmul
    omega
  obtain rfl | rfl : m = q ∨ m = q + 1 := by omega
  · rw [if_pos (by omega)]
  · rw [Nat.add_mul] at hlow hodd
    rw [if_neg (by omega)]

/-! ### Digits that are too many -/

theorem excessBits_eq {n s : Nat} (hlow : 2 ^ (52 + s) ≤ n) (hhigh : n < 2 ^ (53 + s)) :
    excessBits n = s := by
  have hpos : 0 < 2 ^ (52 + s) := Nat.two_pow_pos _
  have hlog : n.log2 = 52 + s := (Nat.log2_eq_iff (by omega)).2 ⟨hlow, by rwa [Nat.add_right_comm]⟩
  rw [excessBits, hlog]
  omega

theorem excessBits_eq_zero {n : Nat} (h : n < 2 ^ 53) : excessBits n = 0 := by
  by_cases hn : n = 0
  · subst hn
    rfl
  · have hlog : n.log2 < 53 := (Nat.log2_lt hn).2 h
    rw [excessBits]
    omega

/-- Where a quotient has fifty-three binary digits once it is shifted, rounding it gives the
significand. -/
theorem nearest_eq_min {n d s m : Nat} (hd : 0 < d) (hsmall : s ≠ 0 → 2 ^ 52 * (d * 2 ^ s) ≤ n)
    (hlarge : n < 2 ^ 53 * (d * 2 ^ s)) (hround : divNearest n (d * 2 ^ s) = m) :
    nearest n d = min (s * 2 ^ 52 + m) infiniteMagnitude := by
  have hscale : ∀ k, k * (d * 2 ^ s) = k * 2 ^ s * d := fun k => by
    rw [Nat.mul_comm d, Nat.mul_assoc]
  have hlt : n / d < 2 ^ 53 * 2 ^ s := (Nat.div_lt_iff_lt_mul hd).2 (hscale _ ▸ hlarge)
  have hexcess : excessBits (n / d) = s := by
    by_cases hs : s = 0
    · subst hs
      exact excessBits_eq_zero (by simpa using hlt)
    · have hle : 2 ^ 52 * 2 ^ s ≤ n / d := (Nat.le_div_iff_mul_le hd).2 (hscale _ ▸ hsmall hs)
      exact excessBits_eq (by rwa [Nat.pow_add]) (by rwa [Nat.pow_add])
  simp only [nearest, hexcess]
  exact congrArg (fun k => min (s * 2 ^ 52 + k) infiniteMagnitude) hround

/-! ### Magnitudes in two parts -/

section Parts

variable {b : Nat}

theorem shift_add_significand (b : Nat) : shift b * 2 ^ 52 + significand b = b := by
  show (b / 2 ^ 52 - 1) * 2 ^ 52 + (b - (b / 2 ^ 52 - 1) * 2 ^ 52) = b
  omega

theorem significand_lt (b : Nat) : significand b < 2 ^ 53 := by
  show b - (b / 2 ^ 52 - 1) * 2 ^ 52 < 2 ^ 53
  omega

/-- The significand of a number that is scaled has fifty-three binary digits. -/
theorem le_significand (h : shift b ≠ 0) : 2 ^ 52 ≤ significand b := by
  have h : b / 2 ^ 52 - 1 ≠ 0 := h
  show 2 ^ 52 ≤ b - (b / 2 ^ 52 - 1) * 2 ^ 52
  omega

theorem significand_pos (hb : b ≠ 0) : 0 < significand b := by
  have hsum := shift_add_significand b
  by_cases hs : shift b = 0
  · rw [hs] at hsum
    omega
  · have hge := le_significand hs
    omega

end Parts

/-! ### Quotients close to a magnitude -/

/-- The quotient `n / d` lies around `m · 2 ^ s`, at most `below` quarters of `2 ^ s` below it and
two quarters above it; if `m` is odd, the ends do not count. -/
structure Near (m s below n d : Nat) : Prop where
  low : 4 * (m * (d * 2 ^ s)) ≤ 4 * n + below * (d * 2 ^ s)
  high : 4 * n ≤ 4 * (m * (d * 2 ^ s)) + 2 * (d * 2 ^ s)
  odd : m % 2 = 1 → 4 * (m * (d * 2 ^ s)) < 4 * n + below * (d * 2 ^ s) ∧
    4 * n < 4 * (m * (d * 2 ^ s)) + 2 * (d * 2 ^ s)

/-- How many quarters of a step there are from a magnitude down to half way to the one below; below
a power of two the step is half as wide. -/
def quartersBelow (b : Nat) : Nat :=
  if significand b = 2 ^ 52 ∧ shift b ≠ 0 then 1 else 2

theorem quartersBelow_pos (b : Nat) : 0 < quartersBelow b := by
  unfold quartersBelow
  split <;> decide

namespace Near

variable {m s below n d b : Nat}

theorem lt (h : Near m s below n d) (hd : 0 < d) (hm : m < 2 ^ 53) : n < 2 ^ 53 * (d * 2 ^ s) := by
  have hstep : 0 < d * 2 ^ s := Nat.mul_pos hd (Nat.two_pow_pos s)
  have hhigh := h.high
  have hmax := Nat.mul_le_mul_right (d * 2 ^ s) hm
  rw [Nat.succ_mul] at hmax
  generalize d * 2 ^ s = step at *
  generalize m * step = value at *
  omega

theorem divNearest_eq (h : Near m s 2 n d) (hd : 0 < d) : divNearest n (d * 2 ^ s) = m := by
  have hstep : 0 < d * 2 ^ s := Nat.mul_pos hd (Nat.two_pow_pos s)
  obtain ⟨hlow, hhigh, hodd⟩ := h
  refine Number.divNearest_eq hstep ?_ ?_ ?_
  all_goals
    generalize d * 2 ^ s = step at *
    generalize m * step = value at *
    omega

/-- Inside a binade the quotient has as many digits as the magnitude. -/
theorem nearest_eq_of_lt (h : Near m s 2 n d) (hd : 0 < d) (hm : m < 2 ^ 53)
    (hs : s ≠ 0 → 2 ^ 52 < m) : nearest n d = min (s * 2 ^ 52 + m) infiniteMagnitude := by
  refine nearest_eq_min hd (fun hscaled => ?_) (h.lt hd hm) (h.divNearest_eq hd)
  have hlow := h.low
  have hmin := Nat.mul_le_mul_right (d * 2 ^ s) (hs hscaled)
  rw [Nat.succ_mul] at hmin
  generalize d * 2 ^ s = step at *
  generalize m * step = value at *
  omega

/-- At the lower end of a binade the quotient may lie in the binade below. -/
theorem nearest_eq_of_eq (h : Near (2 ^ 52) (s + 1) 1 n d) (hd : 0 < d) :
    nearest n d = min ((s + 1) * 2 ^ 52 + 2 ^ 52) infiniteMagnitude := by
  by_cases hn : 2 ^ 52 * (d * 2 ^ (s + 1)) ≤ n
  · refine nearest_eq_min hd (fun _ => hn) (h.lt hd (by decide)) ?_
    refine divNearest_eq ⟨?_, h.high, fun hodd => absurd hodd (by decide)⟩ hd
    have hlow := h.low
    generalize d * 2 ^ (s + 1) = step at *
    omega
  · have hlow := h.low
    have hstep : 0 < d * 2 ^ s := Nat.mul_pos hd (Nat.two_pow_pos s)
    have hhalf : d * 2 ^ (s + 1) = 2 * (d * 2 ^ s) := by
      rw [Nat.pow_succ, ← Nat.mul_assoc, Nat.mul_comm]
    rw [hhalf] at hlow hn
    -- half the step below, the quotient is rounded up to the next power of two
    have hround : Number.divNearest n (d * 2 ^ s) = 2 ^ 53 := by
      refine Number.divNearest_eq hstep ?_ ?_ (fun hodd => absurd hodd (by decide))
      all_goals
        generalize d * 2 ^ s = step at *
        omega
    have hnearest : nearest n d = min (s * 2 ^ 52 + 2 ^ 53) infiniteMagnitude := by
      refine nearest_eq_min hd (fun _ => ?_) ?_ hround
      all_goals
        generalize d * 2 ^ s = step at *
        omega
    have hsum : s * 2 ^ 52 + 2 ^ 53 = (s + 1) * 2 ^ 52 + 2 ^ 52 := by omega
    rw [hnearest, hsum]

/-- A quotient close to a finite magnitude is rounded to it. -/
theorem nearest_eq (h : Near (significand b) (shift b) (quartersBelow b) n d) (hd : 0 < d)
    (hb : b < infiniteMagnitude) : nearest n d = b := by
  suffices heq : nearest n d = min (shift b * 2 ^ 52 + significand b) infiniteMagnitude by
    rw [heq, shift_add_significand, Nat.min_eq_left hb.le]
  by_cases hedge : significand b = 2 ^ 52 ∧ shift b ≠ 0
  · rw [quartersBelow, if_pos hedge] at h
    obtain ⟨hm, hs⟩ := hedge
    obtain ⟨s, hs⟩ := Nat.exists_eq_succ_of_ne_zero hs
    rw [hm, hs] at h ⊢
    exact h.nearest_eq_of_eq hd
  · rw [quartersBelow, if_neg hedge] at h
    refine h.nearest_eq_of_lt hd (significand_lt b) fun hs => ?_
    exact lt_of_le_of_ne (le_significand hs) fun hm => hedge ⟨hm.symm, hs⟩

end Near

end XPath.Number
