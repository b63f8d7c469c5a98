import XPath.Proofs.Number.Binary64
import XPath.Proofs.Number.Shortest
import XPath.Proofs.Token.Words

/-!
# Numbers that are written and read

A text stands for a number exactly if it is a numeral, with white space around it and a minus sign
in front if need be.  The text that a finite number is written as is one of these, and it stands for
the same number: the digits that are read back make up the shortest decimal, which is rounded to the
number.  Only the sign of a zero is lost.

* `Text.exists_trim`, `Text.trim_append`: a text without the white space around it;
* `IsSignedNumeral`: a numeral that may have a minus sign in front;
* `isNaN_ofText_eq_false_iff`: the texts that stand for numbers;
* `ofUnsigned?_eq_ofText`: a numeral alone stands for the same number as a text;
* `Decimal.Spells`, `Decimal.spells_positional`: the digits of a decimal in positional notation;
* `ofUnsigned?_positional`: the shortest decimal stands for the magnitude;
* `ofText_toText`: what is written is read back.
-/

namespace XPath

open Lexer (IsNumeral startsWith)

/-! ### White space around a text -/

namespace Text

/-- A text is what is left of it by trimming, with white space on both sides. -/
theorem exists_trim (cs : List Char) : ∃ front back, cs = front ++ (trim cs ++ back) ∧
    (∀ c ∈ front, isBlank c) ∧ ∀ c ∈ back, isBlank c := by
  have hblank : ∀ (ds : List Char), ∀ c ∈ ds.takeWhile isBlank, isBlank c :=
    fun ds c hc => List.all_eq_true.1 List.all_takeWhile c hc
  have hend : ∀ ds, trimEnd ds ++ (ds.reverse.takeWhile isBlank).reverse = ds := fun ds => by
    rw [trimEnd, trimStart, ← List.reverse_append, List.takeWhile_append_dropWhile,
      List.reverse_reverse]
  refine ⟨cs.takeWhile isBlank, ((trimStart cs).reverse.takeWhile isBlank).reverse, ?_, hblank cs,
    fun c hc => hblank _ c (List.mem_reverse.1 hc)⟩
  rw [trim, hend]
  exact List.takeWhile_append_dropWhile.symm

/-- Trimming leaves a text without white space of one that has white space on both sides. -/
theorem trim_append {front w back : List Char} (hfront : ∀ c ∈ front, isBlank c)
    (hback : ∀ c ∈ back, isBlank c) (hne : w ≠ []) (hw : ∀ c ∈ w, isBlank c = false) :
    trim (front ++ (w ++ back)) = w := by
  have hvisible : ∀ ds, ds ≠ [] → (∀ c ∈ ds, isBlank c = false) →
      startsWith isBlank ds = false := by
    rintro (_ | ⟨c, ds⟩) hds hc
    · exact absurd rfl hds
    · exact hc c List.mem_cons_self
  have hstart : trimStart (front ++ (w ++ back)) = w ++ back := by
    rw [trimStart, List.dropWhile_append_of_pos hfront]
    refine Lexer.trimStart_eq_self ?_
    rw [Lexer.startsWith_append hne]
    exact hvisible w hne hw
  have hend : trimStart (back.reverse ++ w.reverse) = w.reverse := by
    rw [trimStart, List.dropWhile_append_of_pos fun c hc => hback c (List.mem_reverse.1 hc)]
    refine Lexer.trimStart_eq_self (hvisible _ (by simpa using hne) fun c hc => ?_)
    exact hw c (List.mem_reverse.1 hc)
  rw [trim, trimEnd, hstart, List.reverse_append, hend, List.reverse_reverse]

end Text

namespace Number

/-! ### Texts that stand for numbers -/

inductive IsSignedNumeral : List Char → Prop
  | unsigned {w} (numeral : IsNumeral w) : IsSignedNumeral w
  | minus {w} (numeral : IsNumeral w) : IsSignedNumeral ('-' :: w)

theorem isBlank_eq_false_of_isNumeral {w : List Char} (hw : IsNumeral w) :
    ∀ c ∈ w, Text.isBlank c = false := by
  have hdigit : ∀ c : Char, c.isDigit → Text.isBlank c = false :=
    fun c hc => Lexer.isBlank_eq_false_of_isDigit hc
  cases hw with
  | whole digits => exact fun c hc => hdigit c (digits c hc)
  | point digits fraction =>
    refine List.forall_mem_append.2 ⟨fun c hc => hdigit c (digits c hc), ?_⟩
    exact List.forall_mem_cons.2 ⟨by decide, fun c hc => hdigit c (fraction c hc)⟩

namespace IsSignedNumeral

variable {w : List Char}

theorem ne_nil (h : IsSignedNumeral w) : w ≠ [] := by
  cases h with
  | unsigned numeral => exact numeral.ne_nil
  | minus numeral => exact List.cons_ne_nil _ _

theorem isBlank_eq_false (h : IsSignedNumeral w) : ∀ c ∈ w, Text.isBlank c = false := by
  cases h with
  | unsigned numeral => exact isBlank_eq_false_of_isNumeral numeral
  | minus numeral => exact List.forall_mem_cons.2 ⟨by decide, isBlank_eq_false_of_isNumeral numeral⟩

end IsSignedNumeral

theorem nearest_le (n d : Nat) : nearest n d ≤ infiniteMagnitude :=
  Nat.min_le_right _ _

theorem isNaN_eq_false_of_ofUnsigned? {negative : Bool} {cs : List Char} {x : Float}
    (h : ofUnsigned? negative cs = some x) : x.isNaN = false := by
  obtain ⟨p, -, rfl⟩ := Option.map_eq_some_iff.1 h
  exact isNaN_ofMagnitude (nearest_le _ _)

theorem exists_ofUnsigned?_iff (negative : Bool) {cs : List Char} :
    (∃ x, ofUnsigned? negative cs = some x) ↔ IsNumeral cs := by
  constructor
  · rintro ⟨x, hx⟩
    exact Lexer.isNumeral_of_ofUnsigned? hx
  · intro h
    obtain ⟨p, hp⟩ := h.exists_splitPoint?
    exact ⟨_, by rw [ofUnsigned?, hp, Option.map_some]⟩

/-- A numeral does not begin with a minus sign. -/
theorem ofSigned?_eq_ofUnsigned? {w : List Char} (hw : IsNumeral w) :
    ofSigned? w = ofUnsigned? false w := by
  obtain ⟨c, cs, rfl, hc⟩ := hw.exists_cons
  have hminus : c ≠ '-' := by
    rintro rfl
    exact absurd hc (by decide)
  unfold ofSigned?
  split
  · rename_i heq
    exact absurd (List.cons.inj heq).1 hminus
  · rfl

theorem exists_ofSigned?_iff {w : List Char} :
    (∃ x, ofSigned? w = some x) ↔ IsSignedNumeral w := by
  constructor
  · rintro ⟨x, hx⟩
    unfold ofSigned? at hx
    split at hx
    · exact .minus (Lexer.isNumeral_of_ofUnsigned? hx)
    · exact .unsigned (Lexer.isNumeral_of_ofUnsigned? hx)
  · rintro (⟨numeral⟩ | ⟨numeral⟩)
    · rw [ofSigned?_eq_ofUnsigned? numeral]
      exact (exists_ofUnsigned?_iff _).2 numeral
    · exact (exists_ofUnsigned?_iff _).2 numeral

theorem isNaN_eq_false_of_ofSigned? {w : List Char} {x : Float} (h : ofSigned? w = some x) :
    x.isNaN = false := by
  unfold ofSigned? at h
  split at h <;> exact isNaN_eq_false_of_ofUnsigned? h

/-- With white space around it, a signed numeral stands for the number that it is read as. -/
theorem ofText_eq {s : String} {front w back : List Char} {x : Float}
    (hs : s.toList = front ++ (w ++ back)) (hfront : ∀ c ∈ front, Text.isBlank c)
    (hback : ∀ c ∈ back, Text.isBlank c) (hx : ofSigned? w = some x) : ofText s = x := by
  have hw : IsSignedNumeral w := exists_ofSigned?_iff.1 ⟨x, hx⟩
  rw [ofText, hs, Text.trim_append hfront hback hw.ne_nil hw.isBlank_eq_false, hx, Option.getD_some]

theorem ofText_of_ofSigned? {s : String} {x : Float} (h : ofSigned? s.toList = some x) :
    ofText s = x :=
  ofText_eq (by simp) (List.forall_mem_nil _) (List.forall_mem_nil _) h

/-- A text stands for a number exactly if it is a signed numeral with white space around it. -/
theorem isNaN_ofText_eq_false_iff {s : String} : (ofText s).isNaN = false ↔
    ∃ front w back, s.toList = front ++ (w ++ back) ∧ (∀ c ∈ front, Text.isBlank c) ∧
      (∀ c ∈ back, Text.isBlank c) ∧ IsSignedNumeral w := by
  constructor
  · intro h
    obtain ⟨front, back, hs, hfront, hback⟩ := Text.exists_trim s.toList
    refine ⟨front, _, back, hs, hfront, hback, exists_ofSigned?_iff.1 ?_⟩
    cases hx : ofSigned? (Text.trim s.toList) with
    | none =>
      rw [ofText, hx, Option.getD_none, isNaN_nan] at h
      exact absurd h (by decide)
    | some x => exact ⟨x, rfl⟩
  · rintro ⟨front, w, back, hs, hfront, hback, hw⟩
    obtain ⟨x, hx⟩ := exists_ofSigned?_iff.2 hw
    rw [ofText_eq hs hfront hback hx]
    exact isNaN_eq_false_of_ofSigned? hx

/-- A numeral alone is read as the number that it stands for as a text. -/
theorem ofUnsigned?_eq_ofText {s : String} (h : IsNumeral s.toList) :
    ofUnsigned? false s.toList = some (ofText s) := by
  obtain ⟨x, hx⟩ := (exists_ofUnsigned?_iff false).2 h
  have htext : ofText s = x := by
    have hsigned : ofSigned? s.toList = some x := by rw [ofSigned?_eq_ofUnsigned? h, hx]
    exact ofText_of_ofSigned? hsigned
  rw [hx, htext]

/-! ### The digits of a decimal -/

theorem ofDigits_eq (cs : List Char) : ofDigits cs = Nat.ofDigitChars 10 cs 0 :=
  Nat.ofDigitChars_eq_foldl.symm

theorem ofDigits_toDigits (n : Nat) : ofDigits (Nat.toDigits 10 n) = n := by
  rw [ofDigits_eq, Nat.ofDigitChars_ten_toDigits]

theorem ofDigits_append_zeros (cs : List Char) (n : Nat) :
    ofDigits (cs ++ List.replicate n '0') = 10 ^ n * ofDigits cs := by
  rw [ofDigits_eq, ofDigits_eq, Nat.ofDigitChars_append, Nat.ofDigitChars_replicate_zero]

theorem ofDigits_zeros_append (n : Nat) (cs : List Char) :
    ofDigits (List.replicate n '0' ++ cs) = ofDigits cs := by
  rw [ofDigits_eq, ofDigits_eq, Nat.ofDigitChars_append, Nat.ofDigitChars_replicate_zero,
    Nat.mul_zero]

theorem isDigit_of_mem_toDigits {n : Nat} : ∀ c ∈ Nat.toDigits 10 n, c.isDigit :=
  fun _ hc => Nat.isDigit_of_mem_toDigits (by decide) (by decide) hc

theorem isDigit_of_mem_zeros {n : Nat} : ∀ c ∈ List.replicate n '0', c.isDigit := by
  intro c hc
  rw [(List.mem_replicate.1 hc).2]
  decide

namespace Decimal

/-- The digits in front of a point and behind it make up the decimal. -/
def Spells (whole fraction : List Char) (d : Decimal) : Prop :=
  ofDigits (whole ++ fraction) * 10 ^ finest = d.coefficient * 10 ^ d.power * 10 ^ fraction.length

/-- In positional notation, the digits of a decimal make it up. -/
theorem spells_positional (d : Decimal) : ∃ whole fraction,
    splitPoint? d.positional = some (whole, fraction) ∧ Spells whole fraction d := by
  have hne : Nat.toDigits 10 d.coefficient ≠ [] := Nat.toDigits_ne_nil
  have hvalue := ofDigits_toDigits d.coefficient
  have hdigits := isDigit_of_mem_toDigits (n := d.coefficient)
  unfold positional
  simp only
  generalize Nat.toDigits 10 d.coefficient = digits at hne hvalue hdigits ⊢
  split
  -- a whole number, with zeros for the powers of ten
  · rename_i hpower
    refine ⟨_, [], Lexer.splitPoint?_whole ?_ ?_, ?_⟩
    · exact List.forall_mem_append.2 ⟨hdigits, isDigit_of_mem_zeros⟩
    · simp [hne]
    · rw [Spells, List.append_nil, ofDigits_append_zeros, hvalue, List.length_nil, Nat.pow_zero,
        Nat.mul_one, Nat.mul_comm (10 ^ (d.power - finest)), Nat.mul_assoc, ← Nat.pow_add,
        Nat.sub_add_cancel hpower]
  · rename_i hpower
    have hplaces : finest = d.power + (finest - d.power) := by omega
    split
    -- the point stands among the digits
    · rename_i hlong
      have hsplit := List.take_append_drop (digits.length - (finest - d.power)) digits
      refine ⟨_, _, Lexer.splitPoint?_point ?_ ?_ (by rwa [hsplit]), ?_⟩
      · exact fun c hc => hdigits c (List.mem_of_mem_take hc)
      · exact fun c hc => hdigits c (List.mem_of_mem_drop hc)
      · have hlength : (digits.drop (digits.length - (finest - d.power))).length
            = finest - d.power := by
          rw [List.length_drop]
          omega
        rw [Spells, hsplit, hvalue, hlength, Nat.mul_assoc, ← Nat.pow_add, ← hplaces]
    -- zeros fill the places between the point and the digits
    · rename_i hshort
      refine ⟨['0'], List.replicate (finest - d.power - digits.length) '0' ++ digits, ?_, ?_⟩
      · have hzero : ∀ c ∈ ['0'], c.isDigit := List.forall_mem_singleton.2 rfl
        refine Lexer.splitPoint?_point hzero ?_ (List.cons_ne_nil _ _)
        exact List.forall_mem_append.2 ⟨isDigit_of_mem_zeros, hdigits⟩
      · have hlength : (List.replicate (finest - d.power - digits.length) '0' ++ digits).length
            = finest - d.power := by
          rw [List.length_append, List.length_replicate]
          omega
        rw [Spells, List.singleton_append, ← List.cons_append, ← List.replicate_succ,
          ofDigits_zeros_append, hvalue, hlength, Nat.mul_assoc, ← Nat.pow_add, ← hplaces]

end Decimal

/-! ### What is written -/

/-- Digits that make up a decimal in the interval around a magnitude are read as the magnitude. -/
theorem magnitudeOfDigits_eq {whole fraction : List Char} {d : Decimal} {b : Nat}
    (h : d.Spells whole fraction) (hholds : (Interval.ofMagnitude b).holds d.units)
    (hb : b < infiniteMagnitude) : magnitudeOfDigits (whole ++ fraction) fraction.length = b := by
  have hd : 0 < 10 ^ fraction.length := Nat.pow_pos (by decide)
  have hunits : d.units * 10 ^ fraction.length
      = 4 * (ofDigits (whole ++ fraction) * one) * 10 ^ finest :=
    calc d.units * 10 ^ fraction.length
      _ = d.coefficient * 10 ^ d.power * 10 ^ fraction.length * (4 * one) := by
        rw [Decimal.units, gridStep, Nat.pow_eq]
        ring
      _ = ofDigits (whole ++ fraction) * 10 ^ finest * (4 * one) := by rw [h]
      _ = 4 * (ofDigits (whole ++ fraction) * one) * 10 ^ finest := by ring
  exact (near_of_holds hd hunits hholds).nearest_eq hd hb

/-- The shortest decimal of a magnitude is read as the magnitude. -/
theorem ofUnsigned?_positional (negative : Bool) {b : Nat} (hpos : b ≠ 0)
    (hb : b < infiniteMagnitude) :
    ofUnsigned? negative (shortest .up b).positional = some (ofMagnitude negative b) := by
  obtain ⟨whole, fraction, hsplit, hspells⟩ := (shortest .up b).spells_positional
  rw [ofUnsigned?, hsplit, Option.map_some]
  show some (ofMagnitude negative (magnitudeOfDigits (whole ++ fraction) fraction.length)) = _
  rw [magnitudeOfDigits_eq hspells (holds_shortest .up hpos) hb]

theorem toText_of_magnitude_eq_zero {x : Float} (hx : magnitude x = 0) : toText x = "0" := by
  simp only [toText, hx]
  rfl

/-- A finite number other than zero is written as the digits of its shortest decimal. -/
theorem toList_toText {x : Float} (hpos : magnitude x ≠ 0) (hx : magnitude x < infiniteMagnitude) :
    (toText x).toList = if isNegative x then '-' :: (shortest .up (magnitude x)).positional
      else (shortest .up (magnitude x)).positional := by
  simp only [toText, if_neg (Nat.not_lt.2 hx.le), if_neg hpos, if_neg hx.ne, String.toList_ofList]

/-- A finite number other than zero is written as a signed numeral that is read as the number. -/
theorem ofSigned?_toText {x : Float} (hpos : magnitude x ≠ 0)
    (hx : magnitude x < infiniteMagnitude) : ofSigned? (toText x).toList = some x := by
  have hread := fun negative => ofUnsigned?_positional negative hpos hx
  have hparts := ofMagnitude_magnitude hx.le
  rw [toList_toText hpos hx]
  split
  · rename_i hnegative
    rw [hnegative] at hparts
    exact (hread true).trans (congrArg some hparts)
  · rename_i hnegative
    have hnegative : isNegative x = false := by simpa using hnegative
    rw [hnegative] at hparts
    rw [ofSigned?_eq_ofUnsigned? ((exists_ofUnsigned?_iff false).1 ⟨_, hread false⟩)]
    exact (hread false).trans (congrArg some hparts)

theorem ofSigned?_zero : ofSigned? "0".toList = some (ofMagnitude false 0) := by
  decide +kernel

/-- Both zeros are written as the positive one. -/
theorem ofText_toText_of_magnitude_eq_zero {x : Float} (hx : magnitude x = 0) :
    ofText (toText x) = ofMagnitude false 0 := by
  rw [toText_of_magnitude_eq_zero hx]
  exact ofText_of_ofSigned? ofSigned?_zero

theorem ofText_toText_of_magnitude_ne_zero {x : Float} (hpos : magnitude x ≠ 0)
    (hx : magnitude x < infiniteMagnitude) : ofText (toText x) = x :=
  ofText_of_ofSigned? (ofSigned?_toText hpos hx)

theorem isSignedNumeral_toText {x : Float} (hx : magnitude x < infiniteMagnitude) :
    IsSignedNumeral (toText x).toList := by
  by_cases hpos : magnitude x = 0
  · rw [toText_of_magnitude_eq_zero hpos]
    exact exists_ofSigned?_iff.1 ⟨_, ofSigned?_zero⟩
  · exact exists_ofSigned?_iff.1 ⟨_, ofSigned?_toText hpos hx⟩

theorem ofText_toText_beq {x : Float} (hx : magnitude x < infiniteMagnitude) :
    ofText (toText x) == x := by
  by_cases hpos : magnitude x = 0
  · rw [ofText_toText_of_magnitude_eq_zero hpos]
    exact beq_of_magnitude_eq_zero (magnitude_ofMagnitude (Nat.zero_le _)) hpos
  · rw [ofText_toText_of_magnitude_ne_zero hpos hx]
    exact beq_self (by rw [isNaN_eq, decide_eq_false (Nat.not_lt.2 hx.le)])

/-- A zero that is not the negative one is the positive one. -/
theorem eq_ofMagnitude_false_zero {x : Float} (hx : magnitude x = 0)
    (hne : x ≠ ofMagnitude true 0) : x = ofMagnitude false 0 := by
  have hparts := ofMagnitude_magnitude (x := x) (by omega)
  rw [hx] at hparts
  cases hnegative : isNegative x with
  | true =>
    rw [hnegative] at hparts
    exact absurd hparts.symm hne
  | false =>
    rw [hnegative] at hparts
    exact hparts.symm

/-- Only zeros are read from what a zero is written as. -/
theorem magnitude_eq_zero_of_toText_eq {x y : Float} (hx : magnitude x < infiniteMagnitude)
    (h : toText x = toText y) (hy : magnitude y = 0) : magnitude x = 0 := by
  by_contra hpos
  have hread := ofText_toText_of_magnitude_ne_zero hpos hx
  rw [h, ofText_toText_of_magnitude_eq_zero hy] at hread
  rw [← hread, magnitude_ofMagnitude (Nat.zero_le _)] at hpos
  exact hpos rfl

/-- A finite number is written as a signed numeral, and the text stands for the same number, bit for
bit unless the number is the negative zero.  So no two finite numbers are written alike, apart from
the two zeros. -/
theorem ofText_toText :
    (∀ x : Float, x.isFinite → IsSignedNumeral (toText x).toList ∧ ofText (toText x) == x ∧
      (x ≠ ofMagnitude true 0 → ofText (toText x) = x)) ∧
    ∀ x y : Float, x.isFinite → y.isFinite → toText x = toText y →
      x = y ∨ magnitude x = 0 ∧ magnitude y = 0 := by
  simp only [isFinite_iff]
  refine ⟨fun x hx => ⟨isSignedNumeral_toText hx, ofText_toText_beq hx, ?_⟩, ?_⟩
  · intro hne
    by_cases hpos : magnitude x = 0
    · rw [ofText_toText_of_magnitude_eq_zero hpos, eq_ofMagnitude_false_zero hpos hne]
    · exact ofText_toText_of_magnitude_ne_zero hpos hx
  · intro x y hx hy h
    by_cases hzero : magnitude x = 0
    · exact .inr ⟨hzero, magnitude_eq_zero_of_toText_eq hy h.symm hzero⟩
    · have hzero' : magnitude y ≠ 0 := fun hy' =>
        hzero (magnitude_eq_zero_of_toText_eq hx h hy')
      refine .inl ?_
      rw [← ofText_toText_of_magnitude_ne_zero hzero hx, h,
        ofText_toText_of_magnitude_ne_zero hzero' hy]

/-- The negative number closest to zero, and the two zeros. -/
theorem ofText_toText_least :
    ofText (toText (ofMagnitude true 1)) = ofMagnitude true 1 ∧
      ofText (toText (ofMagnitude true 0)) == ofMagnitude true 0 ∧
      toText (ofMagnitude true 0) = toText (ofMagnitude false 0) ∧
      (ofMagnitude true 0 = ofMagnitude false 0 ∨
        magnitude (ofMagnitude true 0) = 0 ∧ magnitude (ofMagnitude false 0) = 0) := by
  have hread := ofText_toText.1
  have halike : toText (ofMagnitude true 0) = toText (ofMagnitude false 0) := by decide +kernel
  refine ⟨?_, ?_, halike, ?_⟩
  · exact (hread (ofMagnitude true 1) (by decide +kernel)).2.2 (by decide +kernel)
  · exact (hread (ofMagnitude true 0) (by decide +kernel)).2.1
  · exact ofText_toText.2 _ _ (by decide +kernel) (by decide +kernel) halike

end Number
end XPath
