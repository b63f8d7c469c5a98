import XPath.Expr.Chain
import XPath.Number.Text
import XPath.Token.Lexer.Move
import XPath.Token.Render

/-!
# The words of the lexer

The lexer measures words before it knows what they are.  Here each kind of word is a predicate on
texts of its own, and each measuring function is shown to cut off exactly such words: what it cuts
off is one, and it cuts off the whole of one from a text that goes on with something else.

* `IsWord`, `IsStepWord`: names and the star of a step;
* `IsVariableName`, `IsNumeral`, `IsLiteral`: variables, numbers and literals;
* `Settled`: a text that no word before it can run into.
-/

namespace XPath
namespace Lexer

/-! ### First characters -/

@[simp] theorem startsWith_nil (p : Char → Bool) : startsWith p [] = false := rfl

@[simp] theorem startsWith_cons (p : Char → Bool) (c : Char) (cs : List Char) :
    startsWith p (c :: cs) = p c := rfl

theorem exists_cons_of_startsWith {c : Char} {cs : List Char} (h : startsWith (· == c) cs) :
    ∃ ds, cs = c :: ds := by
  cases cs with
  | nil => simp at h
  | cons d ds =>
    have hd : d = c := by simpa using h
    exact ⟨ds, by rw [hd]⟩

theorem startsWith_eq_false {d : Char} {cs : List Char} (h : ∀ rest, cs = d :: rest → False) :
    startsWith (· == d) cs = false := by
  by_cases hs : startsWith (· == d) cs
  · obtain ⟨rest, hrest⟩ := exists_cons_of_startsWith hs
    exact (h rest hrest).elim
  · simpa using hs

theorem length_pos_of_startsWith {p : Char → Bool} {cs : List Char} (h : startsWith p cs) :
    0 < cs.length := by
  cases cs with
  | nil => simp at h
  | cons c cs => exact Nat.succ_pos _

theorem ne_nil_of_startsWith {p : Char → Bool} {cs : List Char} (h : startsWith p cs) : cs ≠ [] :=
  List.length_pos_iff.1 (length_pos_of_startsWith h)

theorem one_lt_length_of_startsWith {p : Char → Bool} {cs : List Char}
    (h : startsWith p (cs.drop 1)) : 1 < cs.length := by
  have hpos := length_pos_of_startsWith h
  rw [List.length_drop] at hpos
  omega

theorem startsWith_append {p : Char → Bool} {w : List Char} (hw : w ≠ []) (cs : List Char) :
    startsWith p (w ++ cs) = startsWith p w := by
  cases w with
  | nil => exact absurd rfl hw
  | cons c w => rfl

theorem startsWith_append_of_not {p : Char → Bool} {back : List Char}
    (h : startsWith p back = false) (cs : List Char) :
    startsWith p (cs ++ back) = startsWith p cs := by
  cases cs with
  | nil => exact h
  | cons c cs => rfl

theorem startsWith_take {p : Char → Bool} (cs : List Char) {n : Nat} (hn : n ≠ 0) :
    startsWith p (cs.take n) = startsWith p cs := by
  cases cs with
  | nil => simp
  | cons c cs =>
    obtain ⟨m, rfl⟩ := Nat.exists_eq_succ_of_ne_zero hn
    rfl

/-- The characters after the longest run begin with none that could continue it. -/
theorem startsWith_dropWhile (p : Char → Bool) (cs : List Char) :
    startsWith p (cs.dropWhile p) = false := by
  induction cs with
  | nil => rfl
  | cons c cs ih =>
    rw [List.dropWhile_cons]
    split
    · exact ih
    · rename_i hc
      simpa using hc

theorem startsWith_isBlank_trimStart (cs : List Char) :
    startsWith Text.isBlank (Text.trimStart cs) = false :=
  startsWith_dropWhile Text.isBlank cs

/-- A text that does not begin with white space loses nothing when its start is trimmed. -/
theorem trimStart_eq_self {cs : List Char} (h : startsWith Text.isBlank cs = false) :
    Text.trimStart cs = cs := by
  cases cs with
  | nil => rfl
  | cons c cs =>
    rw [startsWith_cons] at h
    simp [Text.trimStart, h]

theorem trimStart_cons {c : Char} (h : Text.isBlank c = false) (cs : List Char) :
    Text.trimStart (c :: cs) = c :: cs :=
  trimStart_eq_self (by rwa [startsWith_cons])

@[simp] theorem trimStart_trimStart (cs : List Char) :
    Text.trimStart (Text.trimStart cs) = Text.trimStart cs :=
  trimStart_eq_self (startsWith_isBlank_trimStart cs)

@[simp] theorem rest_skipBlank (c : Cursor) : c.skipBlank.rest = Text.trimStart c.rest := rfl

@[simp] theorem rest_advance (c : Cursor) (n : Nat) : (c.advance n).rest = c.rest.drop n := rfl

theorem token_append {c : Cursor} {w : String} {cs : List Char} (h : c.rest = w.toList ++ cs)
    (kind : Token.Kind) : c.token kind w.toList.length = ⟨kind, w, c.offset⟩ := by
  rw [Cursor.token, h, List.take_left, String.ofList_toList]

theorem rest_advance_append {c : Cursor} {w cs : List Char} (h : c.rest = w ++ cs) :
    (c.advance w.length).rest = cs := by
  rw [rest_advance, h, List.drop_left]

/-! ### Taking and dropping the longest run -/

theorem takeWhile_eq_nil {p : Char → Bool} {cs : List Char} (h : startsWith p cs = false) :
    cs.takeWhile p = [] := by
  cases cs with
  | nil => rfl
  | cons c cs => exact List.takeWhile_cons_of_neg (by simpa using h)

theorem takeWhile_append_of_settled {p : Char → Bool} {w cs : List Char} (hw : ∀ c ∈ w, p c)
    (hcs : startsWith p cs = false) : (w ++ cs).takeWhile p = w := by
  rw [List.takeWhile_append_of_pos hw, takeWhile_eq_nil hcs, List.append_nil]

/-- The longest run ends with a text that nothing behind it continues. -/
theorem takeWhile_append_of_not {p : Char → Bool} {back : List Char}
    (h : startsWith p back = false) (cs : List Char) :
    (cs ++ back).takeWhile p = cs.takeWhile p := by
  induction cs with
  | nil => exact takeWhile_eq_nil h
  | cons c cs ih => rw [List.cons_append, List.takeWhile_cons, List.takeWhile_cons, ih]

theorem dropWhile_append_of_not {p : Char → Bool} {back : List Char}
    (h : startsWith p back = false) (cs : List Char) :
    (cs ++ back).dropWhile p = cs.dropWhile p ++ back := by
  induction cs with
  | nil =>
    cases back with
    | nil => rfl
    | cons b back => exact List.dropWhile_cons_of_neg (by simpa using h)
  | cons c cs ih =>
    rw [List.cons_append, List.dropWhile_cons, List.dropWhile_cons, ih]
    split <;> rfl

theorem take_length_takeWhile (p : Char → Bool) (cs : List Char) :
    cs.take (cs.takeWhile p).length = cs.takeWhile p :=
  (List.prefix_iff_eq_take.1 (List.takeWhile_prefix p)).symm

/-! ### What follows a word -/

/-- A text that no word before it can run into: it does not go on with a name character, and what
is visible first is neither a colon nor an opening parenthesis. -/
structure Settled (cs : List Char) : Prop where
  notName : startsWith isNameChar cs = false
  notJoined : startsWith (fun c => c == ':' || c == '(') (Text.trimStart cs) = false

theorem Settled.notColon {cs : List Char} (h : Settled cs) : startsWith (· == ':') cs = false := by
  cases cs with
  | nil => rfl
  | cons c cs =>
    rw [startsWith_cons, beq_eq_false_iff_ne]
    rintro rfl
    have hj := h.notJoined
    rw [trimStart_eq_self (by rfl)] at hj
    simp at hj

/-! ### Names and the star of a step -/

/-- A run of name characters that does not begin with white space. -/
structure IsWord (w : List Char) : Prop where
  ne_nil : w ≠ []
  nameChars : ∀ c ∈ w, isNameChar c
  notBlank : startsWith Text.isBlank w = false

/-- A word, or the star of a step. -/
def IsStepWord (w : List Char) : Prop :=
  IsWord w ∨ w = ['*']

theorem IsWord.star_not_mem {w : List Char} (h : IsWord w) : '*' ∉ w :=
  fun hs => absurd (h.nameChars _ hs) (by decide)

theorem IsWord.startsWith_star {w : List Char} (h : IsWord w) :
    startsWith (· == '*') w = false := by
  cases w with
  | nil => rfl
  | cons c w =>
    have hc : '*' ≠ c := fun hc => h.star_not_mem (hc ▸ List.mem_cons_self)
    simpa using hc.symm

theorem IsStepWord.ne_nil {w : List Char} (h : IsStepWord w) : w ≠ [] := by
  rcases h with h | rfl
  · exact h.ne_nil
  · exact List.cons_ne_nil _ _

theorem IsStepWord.notBlank {w : List Char} (h : IsStepWord w) :
    startsWith Text.isBlank w = false := by
  rcases h with h | rfl
  · exact h.notBlank
  · decide

/-- The whole of a word is measured when no name character follows. -/
theorem stepWordLength_append {w cs : List Char} (hw : IsStepWord w)
    (hcs : startsWith isNameChar cs = false) : stepWordLength (w ++ cs) = w.length := by
  unfold stepWordLength
  rcases hw with hw | rfl
  · rw [startsWith_append hw.ne_nil, hw.startsWith_star]
    simp only [Bool.false_eq_true, if_false]
    rw [takeWhile_append_of_settled hw.nameChars hcs]
  · rfl

/-- What is measured is a word. -/
theorem isStepWord_take {cs : List Char} (hn : stepWordLength cs ≠ 0)
    (hb : startsWith Text.isBlank cs = false) : IsStepWord (cs.take (stepWordLength cs)) := by
  have hblank := (startsWith_take (p := Text.isBlank) cs hn).trans hb
  unfold stepWordLength at hn hblank ⊢
  split
  · rename_i hs
    cases cs with
    | nil => simp at hs
    | cons c cs =>
      have hc : c = '*' := by simpa using hs
      exact .inr (by rw [hc]; rfl)
  · rename_i hs
    rw [if_neg hs] at hn hblank
    refine .inl ⟨?_, ?_, hblank⟩
    · rw [take_length_takeWhile]
      exact fun h => hn (by rw [h]; rfl)
    · rw [take_length_takeWhile]
      exact fun c hc => List.all_eq_true.1 List.all_takeWhile c hc

/-! ### Names of variables -/

/-- A text that is measured as a variable's name to its end. -/
structure IsVariableName (w : List Char) : Prop where
  ne_nil : w ≠ []
  length : variableLength false w = w.length

theorem variableLength_append {w cs : List Char} (hn : startsWith isNameChar cs = false)
    (hc : startsWith (· == ':') cs = false) :
    ∀ begun, variableLength begun w = w.length → variableLength begun (w ++ cs) = w.length := by
  induction w with
  | nil =>
    intro begun _
    cases cs with
    | nil => rfl
    | cons c cs =>
      rw [startsWith_cons] at hn hc
      simp [variableLength, hn, hc]
  | cons c w ih =>
    intro begun h
    rw [variableLength] at h
    split at h
    · rename_i hw
      have hrest : variableLength true w = w.length := by simpa using h
      rw [List.cons_append, variableLength, if_pos, ih true hrest, List.length_cons]
      -- a colon counts only before a name start, so the name does not end with it
      cases w with
      | nil =>
        have hw : isNameChar c := by simpa using hw
        rw [hw, Bool.true_or]
      | cons d w => exact hw
    · simp at h

theorem variableLength_take (cs : List Char) :
    ∀ begun,
      variableLength begun (cs.take (variableLength begun cs)) = variableLength begun cs := by
  induction cs with
  | nil => intro begun; rfl
  | cons c cs ih =>
    intro begun
    rw [variableLength]
    split
    · rename_i hc
      rw [List.take_succ_cons, variableLength, ih true, if_pos]
      cases hn : isNameChar c with
      | true => rfl
      | false =>
        simp only [hn, Bool.false_or, Bool.and_eq_true] at hc ⊢
        refine ⟨hc.1, ?_⟩
        cases cs with
        | nil => simp at hc
        | cons d cs =>
          have hd : isNameChar d := isNameChar_of_isNameStart (by simpa using hc.2)
          rw [variableLength, if_pos (by simp [hd])]
          simpa using hc.2
    · rfl

theorem variableLength_le (cs : List Char) : ∀ begun, variableLength begun cs ≤ cs.length := by
  induction cs with
  | nil => intro begun; exact Nat.le_refl 0
  | cons c cs ih =>
    intro begun
    rw [variableLength]
    split
    · exact Nat.succ_le_succ (ih true)
    · exact Nat.zero_le _

theorem variableLength_ne_zero {cs : List Char} (h : startsWith isNameStart cs) (begun : Bool) :
    variableLength begun cs ≠ 0 := by
  cases cs with
  | nil => simp at h
  | cons c cs =>
    have hc : isNameChar c := isNameChar_of_isNameStart h
    rw [variableLength, hc, Bool.true_or, if_pos rfl]
    exact Nat.succ_ne_zero _

/-- What is measured is a variable's name. -/
theorem isVariableName_take {cs : List Char} (hn : variableLength false cs ≠ 0) :
    IsVariableName (cs.take (variableLength false cs)) := by
  have hl : (cs.take (variableLength false cs)).length = variableLength false cs := by
    rw [List.length_take]
    exact Nat.min_eq_left (variableLength_le cs false)
  refine ⟨fun h => hn (by rw [← hl, h]; rfl), ?_⟩
  rw [variableLength_take, hl]

/-! ### Numbers -/

/-- Whether a text begins as a number does: with a digit, or with a point before a digit. -/
def opensNumeral : List Char → Bool
  | [] => false
  | c :: cs => c.isDigit || (c == '.' && startsWith Char.isDigit cs)

/-- Digits with at most one point before, among or behind them. -/
inductive IsNumeral : List Char → Prop
  /-- Digits alone. -/
  | whole {ds : List Char} (digits : ∀ c ∈ ds, c.isDigit) (ne_nil : ds ≠ []) : IsNumeral ds
  /-- Digits with a point. -/
  | point {ds fs : List Char} (digits : ∀ c ∈ ds, c.isDigit) (fraction : ∀ c ∈ fs, c.isDigit)
      (ne_nil : ds ++ fs ≠ []) : IsNumeral (ds ++ '.' :: fs)

theorem isNameChar_of_isDigit {c : Char} (h : c.isDigit) : isNameChar c := by
  have h : 48 ≤ c.toNat ∧ c.toNat ≤ 57 := by
    simpa [Char.isDigit, UInt32.le_iff_toNat_le] using h
  simp [isNameChar, h.1, h.2]

theorem startsWith_mono {p q : Char → Bool} (hpq : ∀ c, p c → q c) {cs : List Char}
    (h : startsWith q cs = false) : startsWith p cs = false := by
  cases cs with
  | nil => rfl
  | cons c cs =>
    rw [startsWith_cons] at h ⊢
    cases hp : p c with
    | false => rfl
    | true => rw [hpq c hp] at h; exact h

theorem numberLength_le (cs : List Char) : numberLength cs ≤ cs.length := by
  have hle : (cs.takeWhile Char.isDigit).length ≤ cs.length :=
    (List.takeWhile_sublist Char.isDigit).length_le
  unfold numberLength
  simp only
  split
  · rename_i fraction hrest
    have hlength := congrArg List.length hrest
    have hfraction : (fraction.takeWhile Char.isDigit).length ≤ fraction.length :=
      (List.takeWhile_sublist Char.isDigit).length_le
    rw [List.length_drop, List.length_cons] at hlength
    omega
  · exact hle

theorem whole_le_numberLength (cs : List Char) :
    (cs.takeWhile Char.isDigit).length ≤ numberLength cs := by
  unfold numberLength
  simp only
  split <;> omega

/-- A number goes on behind a point. -/
theorem numberLength_eq (cs : List Char) :
    numberLength cs =
      let n := (cs.takeWhile Char.isDigit).length
      if startsWith (· == '.') (cs.drop n) then
        n + 1 + ((cs.drop (n + 1)).takeWhile Char.isDigit).length
      else n := by
  unfold numberLength
  simp only
  split
  · rename_i hpoint
    rw [hpoint, startsWith_cons, if_pos (by rfl), ← List.drop_drop, hpoint, List.drop_succ_cons,
      List.drop_zero]
  · rename_i hpoint
    rw [startsWith_eq_false hpoint, if_neg Bool.false_ne_true]

theorem numberLength_whole {ds cs : List Char} (hds : ∀ c ∈ ds, c.isDigit)
    (hcs : startsWith Char.isDigit cs = false) (hp : startsWith (· == '.') cs = false) :
    numberLength (ds ++ cs) = ds.length := by
  unfold numberLength
  rw [takeWhile_append_of_settled hds hcs]
  simp only [List.drop_left]
  split
  · simp at hp
  · rfl

theorem numberLength_point {ds fs cs : List Char} (hds : ∀ c ∈ ds, c.isDigit)
    (hfs : ∀ c ∈ fs, c.isDigit) (hcs : startsWith Char.isDigit cs = false) :
    numberLength (ds ++ '.' :: (fs ++ cs)) = ds.length + 1 + fs.length := by
  unfold numberLength
  rw [takeWhile_append_of_settled hds (by rfl)]
  simp only [List.drop_left]
  rw [takeWhile_append_of_settled hfs hcs]

/-- The whole of a number is measured when no name character follows. -/
theorem numberLength_append {w cs : List Char} (hw : IsNumeral w)
    (hcs : startsWith isNameChar cs = false) : numberLength (w ++ cs) = w.length := by
  have hdigit : startsWith Char.isDigit cs = false :=
    startsWith_mono (fun _ => isNameChar_of_isDigit) hcs
  cases hw with
  | whole hds _ =>
    refine numberLength_whole hds hdigit (startsWith_mono (fun c hc => ?_) hcs)
    rw [eq_of_beq hc]
    rfl
  | point hds hfs _ =>
    rw [List.append_assoc, List.cons_append, numberLength_point hds hfs hdigit]
    simp only [List.length_append, List.length_cons]
    omega

theorem IsNumeral.opens {w : List Char} (hw : IsNumeral w) (cs : List Char) :
    opensNumeral (w ++ cs) := by
  cases hw with
  | whole hds hne =>
    cases w with
    | nil => exact absurd rfl hne
    | cons d ds => simp [opensNumeral, hds d List.mem_cons_self]
  | @point ds fs hds hfs hne =>
    cases ds with
    | cons d ds => simp [opensNumeral, hds d List.mem_cons_self]
    | nil =>
      cases fs with
      | nil => exact absurd rfl hne
      | cons f fs => simp [opensNumeral, hfs f List.mem_cons_self]

/-- A number begins with a digit or a point. -/
theorem IsNumeral.exists_cons {w : List Char} (hw : IsNumeral w) :
    ∃ c cs, w = c :: cs ∧ (c.isDigit || c == '.') := by
  have hopens := hw.opens []
  rw [List.append_nil] at hopens
  cases w with
  | nil => simp [opensNumeral] at hopens
  | cons c cs =>
    refine ⟨c, cs, rfl, ?_⟩
    simp only [opensNumeral, Bool.or_eq_true, Bool.and_eq_true] at hopens ⊢
    exact hopens.imp_right And.left

theorem isBlank_eq_false_of_isDigit {c : Char} (h : c.isDigit) : Text.isBlank c = false := by
  have h : 48 ≤ c.toNat ∧ c.toNat ≤ 57 := by
    simpa [Char.isDigit, UInt32.le_iff_toNat_le] using h
  cases hb : Text.isBlank c with
  | false => rfl
  | true =>
    simp [Text.isBlank] at hb
    omega

theorem IsNumeral.ne_nil {w : List Char} (hw : IsNumeral w) : w ≠ [] := by
  obtain ⟨c, cs, rfl, -⟩ := hw.exists_cons
  exact List.cons_ne_nil c cs

theorem IsNumeral.notBlank {w : List Char} (hw : IsNumeral w) :
    startsWith Text.isBlank w = false := by
  obtain ⟨c, cs, rfl, hc⟩ := hw.exists_cons
  rw [startsWith_cons]
  rcases Bool.or_eq_true_iff.1 hc with hd | hp
  · exact isBlank_eq_false_of_isDigit hd
  · rw [eq_of_beq hp]
    rfl

/-- What is measured is a number. -/
theorem isNumeral_take {cs : List Char} (h : opensNumeral cs) :
    IsNumeral (cs.take (numberLength cs)) := by
  have hds : ∀ c ∈ cs.takeWhile Char.isDigit, c.isDigit :=
    fun c hc => List.all_eq_true.1 List.all_takeWhile c hc
  have hend := startsWith_dropWhile Char.isDigit cs
  have hcs := List.takeWhile_append_dropWhile (p := Char.isDigit) (l := cs)
  generalize cs.takeWhile Char.isDigit = ds at hds hcs
  generalize cs.dropWhile Char.isDigit = rest at hend hcs
  subst hcs
  by_cases hp : startsWith (· == '.') rest
  · obtain ⟨fraction, rfl⟩ := exists_cons_of_startsWith hp
    have hfs : ∀ c ∈ fraction.takeWhile Char.isDigit, c.isDigit :=
      fun c hc => List.all_eq_true.1 List.all_takeWhile c hc
    have hfend := startsWith_dropWhile Char.isDigit fraction
    have hfraction := List.takeWhile_append_dropWhile (p := Char.isDigit) (l := fraction)
    generalize fraction.takeWhile Char.isDigit = fs at hfs hfraction
    generalize fraction.dropWhile Char.isDigit = rest at hfend hfraction
    subst hfraction
    rw [numberLength_point hds hfs hfend]
    have htake : (ds ++ '.' :: (fs ++ rest)).take (ds.length + 1 + fs.length)
        = ds ++ '.' :: fs := by
      rw [Nat.add_assoc, List.take_length_add_append, Nat.add_comm, List.take_succ_cons,
        List.take_left]
    rw [htake]
    refine .point hds hfs ?_
    rintro hnil
    obtain ⟨rfl, rfl⟩ := List.append_eq_nil_iff.1 hnil
    -- a point alone opens a number only before a digit
    simp [opensNumeral, hfend] at h
  · rw [numberLength_whole hds hend (by simpa using hp), List.take_left]
    refine .whole hds ?_
    rintro rfl
    cases rest with
    | nil => simp [opensNumeral] at h
    | cons c rest => simp_all [opensNumeral]

theorem splitPoint?_whole {ds : List Char} (digits : ∀ c ∈ ds, c.isDigit) (ne_nil : ds ≠ []) :
    Number.splitPoint? ds = some (ds, []) := by
  have htake : (ds ++ []).takeWhile Char.isDigit = ds ++ [] := List.takeWhile_append_of_pos digits
  have hdrop : (ds ++ []).dropWhile Char.isDigit = [] := List.dropWhile_append_of_pos digits
  rw [List.append_nil] at htake hdrop
  simp [Number.splitPoint?, htake, hdrop, ne_nil]

theorem splitPoint?_point {ds fs : List Char} (digits : ∀ c ∈ ds, c.isDigit)
    (fraction : ∀ c ∈ fs, c.isDigit) (ne_nil : ds ++ fs ≠ []) :
    Number.splitPoint? (ds ++ '.' :: fs) = some (ds, fs) := by
  have htake : (ds ++ '.' :: fs).takeWhile Char.isDigit = ds ++ [] :=
    List.takeWhile_append_of_pos digits
  have hdrop : (ds ++ '.' :: fs).dropWhile Char.isDigit = '.' :: fs :=
    List.dropWhile_append_of_pos digits
  have hfs : fs.all Char.isDigit := List.all_eq_true.2 fraction
  have hdigits : ds = [] → fs ≠ [] := by
    rintro rfl rfl
    exact ne_nil rfl
  rw [List.append_nil] at htake
  simpa [Number.splitPoint?, htake, hdrop, hfs] using hdigits

theorem IsNumeral.exists_splitPoint? {w : List Char} (hw : IsNumeral w) :
    ∃ p, Number.splitPoint? w = some p := by
  cases hw with
  | whole digits ne_nil => exact ⟨_, splitPoint?_whole digits ne_nil⟩
  | point digits fraction ne_nil => exact ⟨_, splitPoint?_point digits fraction ne_nil⟩

/-- What is split at a point, or has none, is a number. -/
theorem isNumeral_of_splitPoint? {cs : List Char} {p : List Char × List Char}
    (hsplit : Number.splitPoint? cs = some p) : IsNumeral cs := by
  have hwhole : ∀ c ∈ cs.takeWhile Char.isDigit, c.isDigit :=
    fun c hc => List.all_eq_true.1 List.all_takeWhile c hc
  have hcs := List.takeWhile_append_dropWhile (p := Char.isDigit) (l := cs)
  unfold Number.splitPoint? at hsplit
  simp only at hsplit
  generalize cs.takeWhile Char.isDigit = ds at hwhole hcs hsplit
  generalize cs.dropWhile Char.isDigit = rest at hcs hsplit
  subst hcs
  split at hsplit
  · rw [List.append_nil]
    refine .whole hwhole ?_
    rintro rfl
    simp at hsplit
  · rename_i fs
    split at hsplit
    · rename_i hfs
      simp only [Bool.and_eq_true, Bool.not_eq_true', Bool.and_eq_false_iff] at hfs
      refine .point hwhole (List.all_eq_true.1 hfs.1) ?_
      intro hnil
      obtain ⟨rfl, rfl⟩ := List.append_eq_nil_iff.1 hnil
      simp at hfs
    · simp at hsplit
  · simp at hsplit

/-- What has a value is a number. -/
theorem isNumeral_of_ofUnsigned? {negative : Bool} {cs : List Char} {x : Float}
    (h : Number.ofUnsigned? negative cs = some x) : IsNumeral cs := by
  obtain ⟨p, hsplit, -⟩ := Option.map_eq_some_iff.1 h
  exact isNumeral_of_splitPoint? hsplit

/-! ### Literals -/

/-- A text that at least one of the quotes does not occur in. -/
def IsLiteral (w : List Char) : Prop :=
  '\'' ∉ w ∨ '"' ∉ w

theorem eq_of_isQuote {q : Char} (hq : isQuote q) : q = '\'' ∨ q = '"' := by
  simpa [isQuote] using hq

theorem isLiteral_of_not_mem {q : Char} {w : List Char} (hq : isQuote q) (hw : q ∉ w) :
    IsLiteral w := by
  rcases eq_of_isQuote hq with rfl | rfl
  · exact .inl hw
  · exact .inr hw

theorem isBlank_eq_false_of_isQuote {q : Char} (hq : isQuote q) : Text.isBlank q = false := by
  rcases eq_of_isQuote hq with rfl | rfl <;> decide

/-- A literal is written between quotes that do not occur in it. -/
theorem toList_quoteLiteral {s : String} (hs : IsLiteral s.toList) :
    ∃ q, isQuote q ∧ q ∉ s.toList ∧ (quoteLiteral s).toList = q :: (s.toList ++ [q]) := by
  unfold quoteLiteral
  split
  · rename_i hmem
    refine ⟨'"', by decide, hs.resolve_left (not_not_intro hmem), ?_⟩
    simp
  · rename_i hmem
    refine ⟨'\'', by decide, hmem, ?_⟩
    simp

/-- The whole of a literal is read up to its closing quote. -/
theorem literal?_eq_some {c : Cursor} {q : Char} {w cs : List Char} (kind : Token.Kind)
    (hc : c.rest = q :: (w ++ q :: cs)) (hq : q ∉ w) :
    literal? c kind = some ((c.advance 1).token kind w.length, c.advance (w.length + 2)) := by
  have hw : (w ++ q :: cs).takeWhile (· != q) = w :=
    takeWhile_append_of_settled (fun d hd => bne_iff_ne.2 (ne_of_mem_of_not_mem hd hq)) (by simp)
  unfold literal?
  rw [hc]
  simp only [hw]
  rw [if_pos (by simp)]

/-- A literal is read between a quote and the next one like it. -/
theorem exists_of_literal? {c next : Cursor} {kind : Token.Kind} {t : Token}
    (h : literal? c kind = some (t, next)) :
    ∃ q w cs, c.rest = q :: (w ++ q :: cs) ∧ q ∉ w ∧ t = (c.advance 1).token kind w.length ∧
      next = c.advance (w.length + 2) := by
  unfold literal? at h
  cases hc : c.rest with
  | nil => simp [hc] at h
  | cons q body =>
    rw [hc] at h
    simp only at h
    split at h
    · rename_i hn
      simp only [Option.some.injEq, Prod.mk.injEq] at h
      have hbody := List.takeWhile_append_dropWhile (p := (· != q)) (l := body)
      have hend := startsWith_dropWhile (· != q) body
      have hnot : q ∉ body.takeWhile (· != q) := fun hmem => by
        simpa using List.all_eq_true.1 List.all_takeWhile q hmem
      generalize body.takeWhile (· != q) = w at h hn hbody hnot
      generalize body.dropWhile (· != q) = rest at hbody hend
      subst hbody
      cases rest with
      | nil => simp at hn
      | cons d cs =>
        have hd : d = q := by simpa using hend
        exact ⟨q, w, cs, by rw [hd], hnot, h.1.symm, h.2.symm⟩
    · simp at h

/-- The quote in front of what is no literal does not come again. -/
theorem not_mem_of_literal?_eq_none {c : Cursor} {kind : Token.Kind} {q : Char} {body : List Char}
    (h : literal? c kind = none) (hc : c.rest = q :: body) : q ∉ body := by
  intro hmem
  obtain ⟨w, cs, rfl, hq⟩ := List.eq_append_cons_of_mem hmem
  rw [literal?_eq_some kind hc hq] at h
  cases h

/-- What is read as a literal is one. -/
theorem isLiteral_of_literal? {c next : Cursor} {kind : Token.Kind} {t : Token}
    (h : literal? c kind = some (t, next)) (hq : startsWith isQuote c.rest) :
    t.kind = kind ∧ IsLiteral t.text.toList := by
  obtain ⟨q, w, cs, hc, hw, rfl, -⟩ := exists_of_literal? h
  rw [hc, startsWith_cons] at hq
  refine ⟨rfl, isLiteral_of_not_mem hq ?_⟩
  rwa [Cursor.token, rest_advance, hc, List.drop_succ_cons, List.drop_zero, List.take_left,
    String.toList_ofList]

/-! ### Operators -/

/-- A text is an operator's only if the operator is found under it. -/
theorem text_of_ofText? {s : String} {op : Operator} (h : Operator.ofText? s = some op) :
    s = op.text := by
  have := List.find?_some h
  exact (eq_of_beq this).symm

def isSign (c : Char) : Bool :=
  c == '=' || c == '!' || c == '<' || c == '>'

theorem operatorLength_of_not_sign {cs : List Char} (h : startsWith isSign cs = false) :
    operatorLength cs =
      if cs.takeWhile isNameChar = ['a', 'n', 'd'] ∨ cs.takeWhile isNameChar = ['o', 'r'] then
        (cs.takeWhile isNameChar).length
      else 0 := by
  unfold operatorLength
  split
  case h_7 => rfl
  all_goals exact absurd h (by rw [startsWith_cons]; decide)

/-- A comparison is an equals sign alone, or another sign that an equals sign may follow and, behind
an exclamation mark, has to. -/
theorem operatorLength_of_sign {c : Char} (hc : isSign c) (cs : List Char) :
    operatorLength (c :: cs) =
      if c = '=' then 1 else if startsWith (· == '=') cs then 2 else if c = '!' then 0 else 1 := by
  have hc : ((c = '=' ∨ c = '!') ∨ c = '<') ∨ c = '>' := by simpa [isSign] using hc
  by_cases hr : startsWith (· == '=') cs
  · obtain ⟨rest, rfl⟩ := exists_cons_of_startsWith hr
    rcases hc with ((rfl | rfl) | rfl) | rfl <;> rfl
  · have hr : startsWith (· == '=') cs = false := by simpa using hr
    rw [hr]
    have hword : ('!' :: cs).takeWhile isNameChar = [] := List.takeWhile_cons_of_neg (by decide)
    rcases hc with ((rfl | rfl) | rfl) | rfl
    · rfl
    all_goals
      unfold operatorLength
      split <;> simp_all

theorem operatorLength_le (cs : List Char) : operatorLength cs ≤ cs.length := by
  fun_cases operatorLength cs with
  | case7 => exact (List.takeWhile_sublist isNameChar).length_le
  | case8 => exact Nat.zero_le _
  | _ => simp

/-- The whole of a comparison is measured when no equals sign follows. -/
theorem operatorLength_comparison (op : Comparison) {cs : List Char}
    (h : startsWith (· == '=') cs = false) :
    operatorLength ((Operator.comparison op).text.toList ++ cs)
      = (Operator.comparison op).text.toList.length := by
  cases op with
  | eq => rfl
  | ne => rfl
  | le => rfl
  | ge => rfl
  | lt => exact (operatorLength_of_sign (by rfl) cs).trans (by rw [h]; rfl)
  | gt => exact (operatorLength_of_sign (by rfl) cs).trans (by rw [h]; rfl)

/-- The whole of a logical word is measured when no name character follows. -/
theorem operatorLength_connective (op : Connective) {cs : List Char}
    (h : startsWith isNameChar cs = false) :
    operatorLength ((Operator.connective op).text.toList ++ cs)
      = (Operator.connective op).text.toList.length := by
  cases op with
  | and =>
    have hword : (['a', 'n', 'd'] ++ cs).takeWhile isNameChar = ['a', 'n', 'd'] :=
      takeWhile_append_of_settled (List.all_eq_true.1 (by decide)) h
    show operatorLength (['a', 'n', 'd'] ++ cs) = 3
    simp only [List.cons_append, List.nil_append] at hword
    simp [operatorLength, hword]
  | or =>
    have hword : (['o', 'r'] ++ cs).takeWhile isNameChar = ['o', 'r'] :=
      takeWhile_append_of_settled (List.all_eq_true.1 (by decide)) h
    show operatorLength (['o', 'r'] ++ cs) = 2
    simp only [List.cons_append, List.nil_append] at hword
    simp [operatorLength, hword]

/-- What is measured is an operator. -/
theorem exists_operator_of_operatorLength {cs : List Char} (h : operatorLength cs ≠ 0) :
    ∃ op : Operator, cs.take (operatorLength cs) = op.text.toList := by
  generalize hn : operatorLength cs = n at h ⊢
  unfold operatorLength at hn
  split at hn
  · exact ⟨.comparison .eq, by rw [← hn]; rfl⟩
  · exact ⟨.comparison .ne, by rw [← hn]; rfl⟩
  · exact ⟨.comparison .le, by rw [← hn]; rfl⟩
  · exact ⟨.comparison .ge, by rw [← hn]; rfl⟩
  · exact ⟨.comparison .lt, by rw [← hn]; rfl⟩
  · exact ⟨.comparison .gt, by rw [← hn]; rfl⟩
  · simp only at hn
    split at hn
    · rename_i hw
      rw [← hn, take_length_takeWhile]
      rcases hw with hw | hw <;> rw [hw]
      · exact ⟨.connective .and, rfl⟩
      · exact ⟨.connective .or, rfl⟩
    · exact absurd hn.symm h

end Lexer
end XPath
