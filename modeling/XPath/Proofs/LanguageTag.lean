import Mathlib
import XPath.LanguageTag

/-!
# The order of language ranges

A tag falls under a range whose subtags begin its own.  So the ranges are ordered: a range falls
under itself, one that falls under a second falls under all that the second falls under, and two
that fall under each other differ in the case of letters at most.  Case makes no difference either
to whether a text is a tag.

* `Alike`: texts that differ in the case of ASCII letters at most;
* `subtags_eq_splitOn`, `subtags_fold`: the subtags of a text, in whatever case;
* `isWellFormed_fold`: a tag stays one in lower case;
* `matchesBy_preorder`: when a tag falls under a range, and the order that this is;
* `matches?_congr`: well-formed tags in another case.
-/

namespace XPath
namespace LanguageTag

open Char (isAlpha_toLower_eq_isAlpha toLower_toLower_eq_toLower)

/-! ### Case -/

/-- The texts differ in the case of ASCII letters at most. -/
def Alike (s t : List Char) : Prop :=
  fold s = fold t

instance (s t : List Char) : Decidable (Alike s t) :=
  inferInstanceAs (Decidable (fold s = fold t))

/-- What holds of each character with itself, and of each capital letter with the small one, holds
of each character with the one in lower case. -/
theorem forall_toLower {P : Char → Char → Prop} (same : ∀ c, P c c)
    (letters : ∀ n ∈ List.range' 65 26, P (Char.ofNat n) (Char.ofNat (n + 32))) (c : Char) :
    P c c.toLower := by
  by_cases h : c.isUpper
  · have hn : 65 ≤ c.toNat ∧ c.toNat ≤ 90 := by
      simpa [Char.isUpper, UInt32.le_iff_toNat_le] using h
    have hc := letters c.toNat (List.mem_range'_1.2 (by omega))
    rwa [Char.ofNat_toNat, ← Char.toLower_eq_of_isUpper h] at hc
  · rw [Char.toLower_eq_of_not_isUpper h]
    exact same c

theorem toLower_eq_hyphen_iff (c : Char) : c.toLower = '-' ↔ c = '-' :=
  forall_toLower (P := fun c d => d = '-' ↔ c = '-') (fun _ => Iff.rfl) (by decide) c

theorem isDigit_toLower (c : Char) : c.toLower.isDigit = c.isDigit :=
  forall_toLower (P := fun c d => d.isDigit = c.isDigit) (fun _ => rfl) (by decide) c

theorem isAlphanumeric_toLower (c : Char) : isAlphanumeric c.toLower = isAlphanumeric c := by
  rw [isAlphanumeric, isAlphanumeric, isAlpha_toLower_eq_isAlpha, isDigit_toLower]

@[simp] theorem fold_nil : fold [] = [] := rfl

@[simp] theorem fold_cons (c : Char) (cs : List Char) : fold (c :: cs) = c.toLower :: fold cs := rfl

@[simp] theorem length_fold (s : List Char) : (fold s).length = s.length :=
  List.length_map _

@[simp] theorem isEmpty_fold (s : List Char) : (fold s).isEmpty = s.isEmpty := by
  cases s <;> rfl

@[simp] theorem fold_fold (s : List Char) : fold (fold s) = fold s := by
  rw [fold, fold, List.map_map]
  exact List.map_congr_left fun c _ => toLower_toLower_eq_toLower c

/-- A class that contains letters in either case has the same members in lower case. -/
theorem all_fold {p : Char → Bool} (hp : ∀ c, p c.toLower = p c) (s : List Char) :
    (fold s).all p = s.all p := by
  rw [fold, List.all_map]
  exact congrArg s.all (funext hp)

/-! ### Subtags -/

theorem subtags_eq_splitOn (cs : List Char) : subtags cs = cs.splitOn '-' := by
  induction cs with
  | nil => rw [subtags, List.splitOn_nil]
  | cons c cs ih =>
    obtain ⟨s, ss, hs⟩ := List.exists_cons_of_ne_nil (List.splitOn_ne_nil '-' cs)
    rw [subtags, List.splitOn_cons_eq_if_modifyHead, ih, hs]
    by_cases hc : c = '-'
    · simp [hc]
    · simp [hc]

/-- Where a text is cut does not depend on case. -/
theorem subtags_fold (cs : List Char) : subtags (fold cs) = (subtags cs).map fold := by
  induction cs with
  | nil => rfl
  | cons c cs ih =>
    rw [fold_cons, subtags, subtags, ih]
    by_cases hc : c = '-'
    · simp [hc, (toLower_eq_hyphen_iff '-').2 rfl]
    · rw [if_neg hc, if_neg fun h => hc ((toLower_eq_hyphen_iff c).1 h)]
      cases subtags cs <;> rfl

theorem Alike.map_subtags_eq {s t : List Char} (h : Alike s t) :
    (subtags s).map fold = (subtags t).map fold := by
  rw [← subtags_fold, ← subtags_fold, h]

/-- Texts with the same subtags are the same. -/
theorem subtags_inj {s t : List Char} (h : subtags s = subtags t) : s = t := by
  rw [subtags_eq_splitOn, subtags_eq_splitOn] at h
  calc s = ['-'].intercalate (s.splitOn '-') := (List.intercalate_splitOn '-').symm
    _ = ['-'].intercalate (t.splitOn '-') := by rw [h]
    _ = t := List.intercalate_splitOn '-'

/-! ### Well-formed tags -/

theorem isRegion_fold (s : List Char) : isRegion (fold s) = isRegion s := by
  rw [isRegion, isRegion, length_fold, all_fold isAlpha_toLower_eq_isAlpha,
    all_fold isDigit_toLower]

theorem isVariant_fold (s : List Char) : isVariant (fold s) = isVariant s := by
  unfold isVariant
  rw [all_fold isAlphanumeric_toLower]
  cases s with
  | nil => rfl
  | cons c cs => simp [isDigit_toLower]

theorem Stage.first?_fold (s : List Char) : Stage.first? (fold s) = Stage.first? s := by
  simp only [first?, length_fold, all_fold isAlpha_toLower_eq_isAlpha]

theorem Stage.next?_fold (stage : Stage) (s : List Char) :
    stage.next? (fold s) = stage.next? s := by
  simp only [next?, isEmpty_fold, length_fold, fold_fold, all_fold isAlphanumeric_toLower,
    all_fold isAlpha_toLower_eq_isAlpha, isRegion_fold, isVariant_fold]

theorem isLanguageTag_map_fold (ss : List (List Char)) :
    isLanguageTag (ss.map fold) = isLanguageTag ss := by
  cases ss with
  | nil => rfl
  | cons s ss =>
    simp only [List.map_cons, isLanguageTag, Stage.first?_fold, List.foldlM_map, Stage.next?_fold]

theorem isPrivateTag_cons (c d : Char) (rest : List Char) :
    isPrivateTag (c :: d :: rest) = (d == '-' && (c.toLower == 'x' && !rest.isEmpty &&
      rest.all fun e => isAlphanumeric e || e == '-')) := by
  by_cases hd : d = '-'
  · subst hd
    rfl
  · rw [beq_false_of_ne hd, Bool.false_and]
    unfold isPrivateTag
    split
    · rename_i heq
      simp [hd] at heq
    · rfl

theorem isPrivateTag_fold (cs : List Char) : isPrivateTag (fold cs) = isPrivateTag cs := by
  have hhyphen : ∀ c : Char, (c.toLower == '-') = (c == '-') := by
    intro c
    rw [Bool.eq_iff_iff, beq_iff_eq, beq_iff_eq, toLower_eq_hyphen_iff]
  match cs with
  | [] => rfl
  | [c] => rfl
  | c :: d :: rest =>
    have hrest : ∀ e : Char, (isAlphanumeric e.toLower || e.toLower == '-')
        = (isAlphanumeric e || e == '-') := by
      intro e
      rw [isAlphanumeric_toLower, hhyphen]
    rw [fold_cons, fold_cons, isPrivateTag_cons, isPrivateTag_cons, hhyphen,
      toLower_toLower_eq_toLower, isEmpty_fold, all_fold hrest]

/-- A text is a tag in lower case exactly if it is one as it stands. -/
theorem isWellFormed_fold (cs : List Char) : isWellFormed (fold cs) = isWellFormed cs := by
  rw [isWellFormed, isWellFormed, fold_fold, isPrivateTag_fold, subtags_fold,
    isLanguageTag_map_fold]

theorem Alike.isWellFormed_eq {s t : List Char} (h : Alike s t) :
    isWellFormed s = isWellFormed t := by
  rw [← isWellFormed_fold s, ← isWellFormed_fold t, h]

/-! ### Ranges -/

/-- Some of the first subtags are, but for case, those of a range exactly if these begin the subtags
in lower case. -/
theorem map_fold_prefix_iff {ss ts : List (List Char)} :
    ss.map fold <+: ts.map fold ↔ ∃ front, front <+: ts ∧ List.Forall₂ Alike ss front := by
  have halike : ∀ front : List (List Char),
      List.Forall₂ Alike ss front ↔ ss.map fold = front.map fold := by
    intro front
    rw [← List.forall₂_eq_eq_eq, List.forall₂_map_left_iff, List.forall₂_map_right_iff]
    rfl
  simp only [halike]
  constructor
  · intro h
    refine ⟨ts.take ss.length, List.take_prefix _ _, ?_⟩
    rw [List.map_take, ← List.length_map (f := fold)]
    exact List.prefix_iff_eq_take.1 h
  · rintro ⟨front, hprefix, hsame⟩
    rw [hsame]
    exact hprefix.map fold

theorem fallsUnder_iff {tag range : List (List Char)} :
    fallsUnder tag range ↔ range.map fold <+: tag.map fold := by
  induction tag, range using fallsUnder.induct with
  | case1 tag => simp [fallsUnder]
  | case2 wanted range => simp [fallsUnder]
  | case3 subtag tag wanted range ih =>
    rw [fallsUnder, Bool.and_eq_true, beq_iff_eq, ih, List.map_cons, List.map_cons,
      List.cons_prefix_cons, eq_comm]

section MatchesBy

variable {parse : String → Option String}
  (hparse : ∀ s t, parse s = some t → Alike s.toList t.toList)

include hparse

/-- The subtags that are compared are those of the texts, but for case. -/
theorem matchesBy_iff {tag range : String} : matchesBy parse tag range ↔
    (parse tag).isSome ∧ (parse range).isSome ∧
      (subtags range.toList).map fold <+: (subtags tag.toList).map fold := by
  unfold matchesBy
  cases htag : parse tag with
  | none => simp
  | some s =>
    cases hrange : parse range with
    | none => simp
    | some r =>
      have hsame := (hparse tag s htag).map_subtags_eq
      have hsame' := (hparse range r hrange).map_subtags_eq
      simp [fallsUnder_iff, hsame, hsame']

theorem matchesBy_refl {tag : String} (h : (parse tag).isSome) : matchesBy parse tag tag :=
  (matchesBy_iff hparse).2 ⟨h, h, List.prefix_rfl⟩

theorem matchesBy_trans {a b c : String} (hab : matchesBy parse a b) (hbc : matchesBy parse b c) :
    matchesBy parse a c := by
  obtain ⟨ha, -, hba⟩ := (matchesBy_iff hparse).1 hab
  obtain ⟨-, hc, hcb⟩ := (matchesBy_iff hparse).1 hbc
  exact (matchesBy_iff hparse).2 ⟨ha, hc, hcb.trans hba⟩

/-- Two tags fall under each other exactly if they differ in case at most. -/
theorem matchesBy_antisymm_iff {s t : String} : matchesBy parse s t ∧ matchesBy parse t s ↔
    (parse s).isSome ∧ (parse t).isSome ∧ Alike s.toList t.toList := by
  constructor
  · rintro ⟨hst, hts⟩
    obtain ⟨hs, ht, hprefix⟩ := (matchesBy_iff hparse).1 hst
    obtain ⟨-, -, hprefix'⟩ := (matchesBy_iff hparse).1 hts
    have hsame := hprefix.eq_of_length_le hprefix'.length_le
    rw [← subtags_fold, ← subtags_fold] at hsame
    exact ⟨hs, ht, (subtags_inj hsame).symm⟩
  · rintro ⟨hs, ht, halike⟩
    have hsame := halike.map_subtags_eq
    exact ⟨(matchesBy_iff hparse).2 ⟨hs, ht, hsame ▸ List.prefix_rfl⟩,
      (matchesBy_iff hparse).2 ⟨ht, hs, hsame ▸ List.prefix_rfl⟩⟩

/-- Let reading a tag change the case of letters at most.  Then a text falls under a range exactly
if both are tags and the subtags of the range begin those of the text, without regard to case.  This
orders the tags: each falls under itself, one that falls under a second falls under what that falls
under, and those that fall under each other are the same but for case. -/
theorem matchesBy_preorder :
    (∀ tag range, matchesBy parse tag range ↔
      (parse tag).isSome ∧ (parse range).isSome ∧
        ∃ front, front <+: tag.toList.splitOn '-' ∧
          List.Forall₂ Alike (range.toList.splitOn '-') front) ∧
    (∀ tag, (parse tag).isSome → matchesBy parse tag tag) ∧
    (∀ a b c, matchesBy parse a b → matchesBy parse b c → matchesBy parse a c) ∧
    ∀ s t, matchesBy parse s t ∧ matchesBy parse t s ↔
      (parse s).isSome ∧ (parse t).isSome ∧ Alike s.toList t.toList := by
  refine ⟨fun tag range => ?_, fun _ => matchesBy_refl hparse, fun _ _ _ => matchesBy_trans hparse,
    fun _ _ => matchesBy_antisymm_iff hparse⟩
  rw [matchesBy_iff hparse, map_fold_prefix_iff, subtags_eq_splitOn, subtags_eq_splitOn]

end MatchesBy

/-- Reading a well-formed tag changes nothing. -/
theorem alike_of_parse? (s t : String) (h : parse? s = some t) : Alike s.toList t.toList := by
  unfold parse? at h
  split at h
  · rw [Option.some.inj h]
    rfl
  · cases h

/-- A tag with a script falls under its script and, so, under its language; a range is a tag too, so
that nothing falls under an extension without an end, though the subtags may agree. -/
theorem matchesBy_preorder_script :
    (∀ s t, parse? s = some t → Alike s.toList t.toList) ∧
    (parse? "zh-Hant-TW").isSome ∧ matches? "zh-Hant-TW" "zh-Hant-TW" ∧
    matches? "zh-Hant-TW" "ZH-hant" ∧ matches? "ZH-hant" "zh" ∧ matches? "zh-Hant-TW" "zh" ∧
    subtags "en-a".toList <+: subtags "en-a-bb".toList ∧ ¬matches? "en-a-bb" "en-a" := by
  obtain ⟨hiff, hrefl, htrans, -⟩ := matchesBy_preorder alike_of_parse?
  have htag : (parse? "zh-Hant-TW").isSome := by decide +kernel
  have hscript : matches? "zh-Hant-TW" "ZH-hant" := by
    refine (hiff _ _).2 ⟨htag, by decide +kernel, ["zh".toList, "Hant".toList], ?_, ?_⟩
    · rw [← subtags_eq_splitOn]
      decide
    · rw [← subtags_eq_splitOn]
      exact .cons (by decide) (.cons (by decide) .nil)
  have hlanguage : matches? "ZH-hant" "zh" := by decide +kernel
  refine ⟨alike_of_parse?, htag, hrefl _ htag, hscript, hlanguage,
    htrans _ _ _ hscript hlanguage, by decide, ?_⟩
  intro hextension
  have hrange := ((hiff _ _).1 hextension).2.1
  revert hrange
  decide +kernel

theorem Alike.isSome_parse? {s t : String} (h : Alike s.toList t.toList) :
    (parse? s).isSome = (parse? t).isSome := by
  unfold parse?
  rw [h.isWellFormed_eq]
  split <;> rfl

/-- Whether a well-formed tag falls under a range does not depend on the case of either. -/
theorem matches?_congr {s s' r r' : String} (hs : Alike s.toList s'.toList)
    (hr : Alike r.toList r'.toList) : matches? s r = matches? s' r' := by
  rw [Bool.eq_iff_iff, matches?, matches?, matchesBy_iff alike_of_parse?,
    matchesBy_iff alike_of_parse?, hs.isSome_parse?, hr.isSome_parse?, hs.map_subtags_eq,
    hr.map_subtags_eq]

end LanguageTag
end XPath
