import XPath.Proofs.Token.Branches
import XPath.Proofs.Token.Place
import XPath.Token.Lexer.Progress

/-!
# One place in two texts

White space is put into a text.  Up to the place of it the two texts have the same characters in
front of them, and behind it they are the same text.

* `stepWordLength_insert` and its kin: no word runs over the white space;
* `Parts`: the white space is put between the next characters;
* `Spread`: the same place in the two texts;
* `Alike`, `Spread.alike`: the same characters there, and the places behind them;
* `Spread.startsWith_eq`, `Spread.second`, `Spread.measure`: what is seen at the two places.
-/

namespace XPath
namespace Lexer

/-! ### Words with white space put behind them -/

def spaces : List Char :=
  [' ', '\t', '\r', '\n']

theorem eq_false_of_spaces {q : Char → Bool} (hq : spaces.all fun x => !q x) {x : Char}
    (hx : x ∈ spaces) : q x = false := by
  simpa using List.all_eq_true.1 hq x hx

section Words

variable {ws f b : List Char} (hws : ∀ x ∈ ws, x ∈ spaces)
include hws

theorem startsWith_insert {q : Char → Bool} (hq : spaces.all fun x => !q x)
    (h : startsWith q (f ++ b) = false) : startsWith q (f ++ (ws ++ b)) = false := by
  cases f with
  | cons c f => exact h
  | nil =>
    cases ws with
    | nil => exact h
    | cons x ws => exact eq_false_of_spaces hq (hws x List.mem_cons_self)

theorem takeWhile_insert {q : Char → Bool} (hq : spaces.all fun x => !q x)
    (h : ((f ++ b).takeWhile q).length ≤ f.length) :
    (f ++ (ws ++ b)).takeWhile q = (f ++ b).takeWhile q := by
  induction f with
  | nil =>
    have hnil : b.takeWhile q = [] := List.length_eq_zero_iff.1 (Nat.le_zero.1 h)
    have hb : startsWith q b = false := by
      have hend := startsWith_dropWhile q b
      rwa [← List.takeWhile_append_dropWhile (p := q) (l := b), hnil]
    exact (takeWhile_eq_nil (startsWith_insert (f := []) hws hq hb)).trans hnil.symm
  | cons c f ih =>
    rw [List.cons_append, List.takeWhile_cons] at h ⊢
    rw [List.cons_append, List.takeWhile_cons]
    cases hc : q c with
    | false => rfl
    | true =>
      rw [hc, if_pos rfl, List.length_cons, List.length_cons] at h
      rw [if_pos rfl, if_pos rfl, ih (Nat.le_of_succ_le_succ h)]

theorem stepWordLength_insert (hf : f ≠ []) (h : stepWordLength (f ++ b) ≤ f.length) :
    stepWordLength (f ++ (ws ++ b)) = stepWordLength (f ++ b) := by
  unfold stepWordLength at h ⊢
  rw [startsWith_append hf] at h ⊢
  rw [startsWith_append hf]
  split
  · rfl
  · rename_i hstar
    rw [if_neg hstar] at h
    rw [takeWhile_insert hws (by decide) h]

theorem variableLength_insert : ∀ begun, variableLength begun (f ++ b) ≤ f.length →
    variableLength begun (f ++ (ws ++ b)) = variableLength begun (f ++ b) := by
  induction f with
  | nil =>
    intro begun h
    cases ws with
    | nil => rfl
    | cons x ws =>
      have hx := hws x List.mem_cons_self
      have hname : startsWith isNameChar (x :: ws ++ b) = false :=
        eq_false_of_spaces (q := isNameChar) (by decide) hx
      have hcolon : startsWith (· == ':') (x :: ws ++ b) = false :=
        eq_false_of_spaces (q := (· == ':')) (by decide) hx
      exact (variableLength_append (w := []) hname hcolon begun rfl).trans (Nat.le_zero.1 h).symm
  | cons c f ih =>
    intro begun h
    rw [List.cons_append, variableLength] at h ⊢
    rw [List.cons_append, variableLength]
    by_cases hc : isNameChar c || (c == ':' && begun && startsWith isNameStart (f ++ b))
    · rw [if_pos hc] at h ⊢
      have hrest : variableLength true (f ++ b) ≤ f.length := Nat.le_of_succ_le_succ h
      have hstart (hb : startsWith isNameStart (f ++ b)) :
          startsWith isNameStart (f ++ (ws ++ b)) := by
        cases f with
        -- a name start behind the colon is read as well, so the name would run over the white space
        | nil => exact absurd (Nat.le_zero.1 hrest) (variableLength_ne_zero hb true)
        | cons d f => exact hb
      rw [ih true hrest, if_pos]
      simp only [Bool.or_eq_true, Bool.and_eq_true] at hc ⊢
      exact hc.imp_right fun hcolon => ⟨hcolon.1, hstart hcolon.2⟩
    · rw [if_neg hc, if_neg]
      simp only [Bool.or_eq_true, Bool.and_eq_true, not_or, not_and, Bool.not_eq_true] at hc ⊢
      exact hc.imp_right fun hstart hcolon => startsWith_insert hws (by decide) (hstart hcolon)

theorem numberLength_insert (h : numberLength (f ++ b) ≤ f.length) :
    numberLength (f ++ (ws ++ b)) = numberLength (f ++ b) := by
  have hwhole := Nat.le_trans (whole_le_numberLength (f ++ b)) h
  rw [numberLength_eq] at h ⊢
  rw [numberLength_eq, takeWhile_insert hws (by decide) hwhole]
  simp only at h ⊢
  generalize ((f ++ b).takeWhile Char.isDigit).length = n at h hwhole
  rw [List.drop_append_of_le_length hwhole] at h ⊢
  rw [List.drop_append_of_le_length hwhole]
  by_cases hpoint : startsWith (· == '.') (f.drop n ++ b)
  · rw [if_pos hpoint] at h ⊢
    have hn : n + 1 ≤ f.length := by omega
    have hne : f.drop n ≠ [] := List.length_pos_iff.1 (by rw [List.length_drop]; omega)
    rw [startsWith_append hne] at hpoint ⊢
    rw [List.drop_append_of_le_length hn] at h ⊢
    rw [if_pos hpoint, List.drop_append_of_le_length hn,
      takeWhile_insert hws (by decide) (by rw [List.length_drop]; omega)]
  · have hpoint : startsWith (· == '.') (f.drop n ++ b) = false := by simpa using hpoint
    rw [hpoint, startsWith_insert hws (by decide) hpoint, if_neg Bool.false_ne_true,
      if_neg Bool.false_ne_true]

theorem operatorLength_insert (h0 : operatorLength (f ++ b) ≠ 0)
    (h : operatorLength (f ++ b) ≤ f.length) :
    operatorLength (f ++ (ws ++ b)) = operatorLength (f ++ b) := by
  cases f with
  | nil => exact absurd (Nat.le_zero.1 h) h0
  | cons c f =>
    rw [List.cons_append] at h0 h ⊢
    rw [List.cons_append]
    by_cases hs : isSign c
    · rw [operatorLength_of_sign hs] at h0 h ⊢
      rw [operatorLength_of_sign hs]
      by_cases hr : startsWith (· == '=') (f ++ b)
      · cases f with
        | nil =>
          by_cases hc : c = '='
          · rw [if_pos hc, if_pos hc]
          · rw [if_neg hc, if_pos hr] at h
            exact absurd (show 2 ≤ 1 from h) (by decide)
        | cons d f => rfl
      · have hr : startsWith (· == '=') (f ++ b) = false := by simpa using hr
        rw [hr, startsWith_insert hws (by decide) hr]
    · have hs (cs : List Char) : startsWith isSign (c :: cs) = false := by simpa using hs
      rw [operatorLength_of_not_sign (hs _)] at h0 h ⊢
      rw [operatorLength_of_not_sign (hs _)]
      split at h0
      -- a longer word may be an operator once it is cut, so nothing holds where none is measured
      · rename_i hword
        rw [if_pos hword] at h
        have htake : (c :: (f ++ (ws ++ b))).takeWhile isNameChar
            = (c :: (f ++ b)).takeWhile isNameChar :=
          takeWhile_insert (f := c :: f) hws (by decide) h
        rw [htake]
      · exact absurd rfl h0

end Words

/-! ### The same place in two texts -/

/-- The offset `p` lies inside the next `n` characters. -/
def Parts (p : Nat) (c : Cursor) (n : Nat) : Prop :=
  c.offset < p ∧ p < (c.advance n).offset

/-- The first place is one in a text, and the second one is the same in the text with the white
space `ws` at the offset `p`: either the white space is still to come, with characters of the text
in front of it, or it lies behind. -/
inductive Spread (ws : List Char) (p : Nat) (c c' : Cursor) : Prop
  | ahead {f b} (ne_nil : f ≠ []) (rest : c.rest = f ++ b) (rest' : c'.rest = f ++ (ws ++ b))
    (place : c.offset + utf8Length f = p) : Spread ws p c c'
  | behind (rest' : c'.rest = c.rest) (place : p ≤ c.offset) : Spread ws p c c'

/-- The next `n` characters are the same at the two places, and so are the places behind them and
behind the white space there. -/
structure Alike (ws : List Char) (p : Nat) (c c' : Cursor) (n : Nat) : Prop where
  take : c'.rest.take n = c.rest.take n
  behind : Spread ws p (c.advance n).skipBlank (c'.advance n).skipBlank

theorem Alike.token {ws : List Char} {p n : Nat} {c c' : Cursor} (h : Alike ws p c c' n)
    (kind : Token.Kind) : (c'.token kind n).unplaced = (c.token kind n).unplaced := by
  simp only [Cursor.token, Token.unplaced, h.take]

theorem Alike.token_advance {ws : List Char} {p m k n : Nat} {c c' : Cursor}
    (h : Alike ws p c c' n) (kind : Token.Kind) (hk : m + k ≤ n) :
    ((c'.advance m).token kind k).unplaced = ((c.advance m).token kind k).unplaced := by
  have hsame := congrArg (fun cs => (cs.drop m).take k) h.take
  simp only [List.drop_take, List.take_take, Nat.min_eq_left (by omega : k ≤ n - m)] at hsame
  simp only [Cursor.token, Token.unplaced, rest_advance, hsame]

/-- In front of the white space, no more than the characters up to it are read. -/
theorem le_length_of_not_parts {p n : Nat} {c : Cursor} {f b : List Char} (hf : f ≠ [])
    (hrest : c.rest = f ++ b) (hplace : c.offset + utf8Length f = p) (hn : n ≤ c.rest.length)
    (hparts : ¬Parts p c n) : n ≤ f.length := by
  refine Nat.le_of_not_lt fun hlt => hparts ⟨?_, ?_⟩
  · have hpos := utf8Length_pos hf
    omega
  · have htake : c.rest.take n = f ++ b.take (n - f.length) := by
      rw [hrest, List.take_append, List.take_of_length_le (Nat.le_of_lt hlt)]
    have hpos : 0 < utf8Length (b.take (n - f.length)) := by
      refine utf8Length_pos (List.length_pos_iff.1 ?_)
      rw [hrest, List.length_append] at hn
      rw [List.length_take]
      omega
    rw [Cursor.advance, htake, utf8Length_append]
    show p < c.offset + (utf8Length f + utf8Length (b.take (n - f.length)))
    omega

section Places

variable {ws : List Char} {p : Nat} {c c' : Cursor} (hws : ∀ x ∈ ws, x ∈ spaces)
include hws

/-- Behind white space, the place of what is put in lies ahead or behind. -/
theorem spread_of_append {f b : List Char} (hrest : c.rest = f ++ b)
    (hrest' : c'.rest = f ++ (ws ++ b)) (hplace : c.offset + utf8Length f = p) :
    Spread ws p c.skipBlank c'.skipBlank := by
  induction f generalizing c c' with
  | nil =>
    refine .behind ?_ ?_
    · rw [rest_skipBlank, rest_skipBlank, hrest, hrest']
      exact List.dropWhile_append_of_pos fun x hx =>
        List.all_eq_true.1 (by decide : spaces.all Text.isBlank) x (hws x hx)
    · have hle := (Cursor.Leads.refl c).skipBlank.offset_le
      rw [utf8Length_nil] at hplace
      omega
  | cons x f ih =>
    rw [Cursor.skipBlank_cons hrest, Cursor.skipBlank_cons hrest']
    split
    -- white space of the text itself is passed over in both texts
    · refine ih ?_ ?_ ?_
      · rw [rest_advance, hrest]
        rfl
      · rw [rest_advance, hrest']
        rfl
      · rw [Cursor.advance, hrest, ← hplace, Nat.add_assoc]
        rfl
    · exact .ahead (List.cons_ne_nil x f) hrest hrest' hplace

namespace Spread

variable (h : Spread ws p c c')
include h

theorem alike {n : Nat} (hn : n ≤ c.rest.length) (hparts : ¬Parts p c n) :
    Alike ws p c c' n := by
  cases h with
  | @ahead f b hf hrest hrest' hplace =>
    have hle := le_length_of_not_parts hf hrest hplace hn hparts
    refine ⟨?_, spread_of_append hws (f := f.drop n) (b := b) ?_ ?_ ?_⟩
    · rw [hrest, hrest', List.take_append_of_le_length hle, List.take_append_of_le_length hle]
    · rw [rest_advance, hrest, List.drop_append_of_le_length hle]
    · rw [rest_advance, hrest', List.drop_append_of_le_length hle]
    · rw [Cursor.advance, hrest, List.take_append_of_le_length hle, Nat.add_assoc,
        ← utf8Length_append, List.take_append_drop, hplace]
  | behind hrest' hplace =>
    refine ⟨by rw [hrest'], .behind ?_ ?_⟩
    · rw [rest_skipBlank, rest_skipBlank, rest_advance, rest_advance, hrest']
    · exact Nat.le_trans hplace ((Cursor.Leads.refl c).advance n).skipBlank.offset_le

theorem skipBlank : Spread ws p c.skipBlank c'.skipBlank :=
  (h.alike hws (Nat.zero_le _) fun hparts => Nat.lt_asymm hparts.1 hparts.2).behind

omit hws in
/-- The first characters are the same. -/
theorem startsWith_eq (q : Char → Bool) : startsWith q c'.rest = startsWith q c.rest := by
  cases h with
  | ahead hf hrest hrest' hplace => rw [hrest, hrest', startsWith_append hf, startsWith_append hf]
  | behind hrest' hplace => rw [hrest']

omit hws in
theorem exists_cons {found : Char} {rest : List Char} (hc : c.rest = found :: rest) :
    ∃ rest', c'.rest = found :: rest' := by
  cases h with
  | @ahead f b hf hrest hrest' hplace =>
    obtain ⟨x, f, rfl⟩ := List.exists_cons_of_ne_nil hf
    obtain ⟨rfl, -⟩ := List.cons.inj (hc.symm.trans hrest)
    exact ⟨f ++ (ws ++ b), hrest'⟩
  | behind hrest' hplace => exact ⟨rest, hrest'.trans hc⟩

omit hws in
theorem eq_nil (hc : c.rest = []) : c'.rest = [] := by
  cases h with
  | ahead hf hrest hrest' hplace =>
    exact absurd (List.append_eq_nil_iff.1 (hrest.symm.trans hc)).1 hf
  | behind hrest' hplace => exact hrest'.trans hc

theorem alike_one (hc : c.rest ≠ []) : Alike ws p c c' 1 := by
  refine h.alike hws (List.length_pos_iff.2 hc) fun hparts => ?_
  cases h with
  | @ahead f b hf hrest hrest' hplace =>
    obtain ⟨x, f, rfl⟩ := List.exists_cons_of_ne_nil hf
    have hlt := hparts.2
    rw [Cursor.advance, hrest, ← hplace] at hlt
    simp only [List.cons_append, List.take_succ_cons, List.take_zero, utf8Length_cons,
      utf8Length_nil] at hlt
    omega
  | behind hrest' hplace => exact Nat.not_lt.2 hplace hparts.1

/-- The second characters are of a class or not, both of them, or the white space is put in front of
the second one. -/
theorem second {q : Char → Bool} (hq : spaces.all fun x => !q x) :
    (startsWith q (c.rest.drop 1) = false ∧ startsWith q (c'.rest.drop 1) = false) ∨
      (startsWith q (c.rest.drop 1) ∧ startsWith q (c'.rest.drop 1) ∧ Alike ws p c c' 2) ∨
      (startsWith q (c.rest.drop 1) ∧ Parts p c 2) := by
  cases hsecond : startsWith q (c.rest.drop 1) with
  | false =>
    refine .inl ⟨rfl, ?_⟩
    cases h with
    | @ahead f b hf hrest hrest' hplace =>
      obtain ⟨x, f, rfl⟩ := List.exists_cons_of_ne_nil hf
      rw [hrest] at hsecond
      rw [hrest']
      exact startsWith_insert (f := f) hws hq hsecond
    | behind hrest' hplace => rwa [hrest']
  | true =>
    refine .inr ?_
    by_cases hparts : Parts p c 2
    · exact .inr ⟨rfl, hparts⟩
    · have halike := h.alike hws (one_lt_length_of_startsWith hsecond) hparts
      have hsame := congrArg (List.drop 1) halike.take
      rw [List.drop_take, List.drop_take] at hsame
      refine .inl ⟨rfl, ?_, halike⟩
      rw [← startsWith_take _ Nat.one_ne_zero, hsame, startsWith_take _ Nat.one_ne_zero, hsecond]

omit hws in
/-- A word that does not run over the white space is as long at the two places. -/
theorem measure {m : List Char → Nat} (hle : m c.rest ≤ c.rest.length)
    (hinsert : ∀ f b, f ≠ [] → c.rest = f ++ b → m c.rest ≤ f.length →
      m (f ++ (ws ++ b)) = m c.rest) (hparts : ¬Parts p c (m c.rest)) : m c'.rest = m c.rest := by
  cases h with
  | ahead hf hrest hrest' hplace =>
    rw [hrest']
    exact hinsert _ _ hf hrest (le_length_of_not_parts hf hrest hplace hle hparts)
  | behind hrest' hplace => rw [hrest']

theorem stepWordLength_eq (hparts : ¬Parts p c (stepWordLength c.rest)) :
    stepWordLength c'.rest = stepWordLength c.rest := by
  refine h.measure (stepWordLength_le c.rest) (fun f b hf hrest hle => ?_) hparts
  rw [hrest] at hle ⊢
  exact stepWordLength_insert hws hf hle

theorem numberLength_eq (hparts : ¬Parts p c (numberLength c.rest)) :
    numberLength c'.rest = numberLength c.rest := by
  refine h.measure (numberLength_le c.rest) (fun f b hf hrest hle => ?_) hparts
  rw [hrest] at hle ⊢
  exact numberLength_insert hws hle

theorem operatorLength_eq (h0 : operatorLength c.rest ≠ 0)
    (hparts : ¬Parts p c (operatorLength c.rest)) :
    operatorLength c'.rest = operatorLength c.rest := by
  refine h.measure (operatorLength_le c.rest) (fun f b hf hrest hle => ?_) hparts
  rw [hrest] at h0 hle ⊢
  exact operatorLength_insert hws h0 hle

/-- The name of a variable begins behind its sign. -/
theorem variableLength_eq (hc : c.rest ≠ [])
    (hparts : ¬Parts p c (1 + variableLength false (c.advance 1).rest)) :
    variableLength false (c'.advance 1).rest = variableLength false (c.advance 1).rest := by
  rw [rest_advance] at hparts
  rw [rest_advance, rest_advance]
  have hpos := List.length_pos_iff.2 hc
  have hname := variableLength_le (c.rest.drop 1) false
  rw [List.length_drop] at hname
  refine Nat.add_left_cancel (n := 1) (h.measure
    (m := fun cs => 1 + variableLength false (cs.drop 1)) (by omega)
    (fun f b hf hrest hle => ?_) hparts)
  obtain ⟨x, f, rfl⟩ := List.exists_cons_of_ne_nil hf
  rw [hrest, Nat.add_comm] at hle
  rw [hrest]
  exact congrArg (1 + ·) (variableLength_insert hws false (Nat.le_of_succ_le_succ hle))

/-- A number begins at both places or at none. -/
theorem opensNumeral_eq (hparts : opensNumeral c.rest → ¬Parts p c (numberLength c.rest)) :
    opensNumeral c'.rest = opensNumeral c.rest := by
  cases hopens : opensNumeral c.rest with
  | true =>
    have halike := h.alike hws (numberLength_le c.rest) (hparts hopens)
    have hnumber := isNumeral_take hopens
    rw [← halike.take] at hnumber
    rw [← List.take_append_drop (numberLength c.rest) c'.rest]
    exact hnumber.opens _
  | false =>
    cases hrest : c.rest with
    | nil => rw [h.eq_nil hrest, opensNumeral]
    | cons found rest =>
      obtain ⟨rest', hrest'⟩ := h.exists_cons hrest
      have hsecond := h.second hws (q := Char.isDigit) (by decide)
      rw [hrest, hrest', List.drop_succ_cons, List.drop_zero, List.drop_succ_cons,
        List.drop_zero] at hsecond
      rw [hrest, opensNumeral] at hopens
      rw [hrest', opensNumeral]
      rcases hsecond with ⟨hdigit, hdigit'⟩ | ⟨hdigit, hdigit', -⟩ | ⟨hdigit, -⟩
      · rwa [hdigit'.trans hdigit.symm]
      · rwa [hdigit'.trans hdigit.symm]
      · rw [hdigit, Bool.and_true, Bool.or_eq_false_iff] at hopens
        rw [hopens.1, hopens.2, Bool.false_and, Bool.false_or]

theorem literal?_eq {kind : Token.Kind} {t : Token} {next : Cursor}
    (hl : literal? c kind = some (t, next)) (hparts : ¬(c.offset < p ∧ p < next.offset)) :
    ∃ t' next', literal? c' kind = some (t', next') ∧ t'.unplaced = t.unplaced ∧
      Spread ws p next.skipBlank next'.skipBlank := by
  obtain ⟨q, w, cs, hrest, hq, rfl, rfl⟩ := exists_of_literal? hl
  have hn : w.length + 2 ≤ c.rest.length := by
    rw [hrest]
    simp only [List.length_cons, List.length_append]
    omega
  have halike := h.alike hws hn hparts
  have htake : c.rest.take (w.length + 2) = q :: (w ++ [q]) := by
    rw [hrest, ← List.singleton_append (l := cs), ← List.append_assoc, ← List.cons_append]
    exact List.take_left' (by simp)
  have hrest' : c'.rest = q :: (w ++ q :: c'.rest.drop (w.length + 2)) := by
    have hsplit := (List.take_append_drop (w.length + 2) c'.rest).symm
    rw [halike.take, htake] at hsplit
    simpa using hsplit
  exact ⟨_, _, literal?_eq_some kind hrest' hq, halike.token_advance kind (by omega),
    halike.behind⟩

end Spread

end Places

end Lexer
end XPath
