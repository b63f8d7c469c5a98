import XPath.Proofs.Token.Branches
import XPath.Token.Lexer.Progress

/-!
# Reading inside an enclosure

What stands in an argument or in a predicate is followed by a comma or a closing bracket.  To every
measure of the lexer such a character is like the end of the text, so a move inside an enclosure
does what the same move does on the inner text alone, as long as it stops in front of that
character.

* `Cursor.within`, `Token.shift`: places and tokens of a text as part of a longer one;
* `stepWordLength_append_closer` and its kin: no word runs over the end of an enclosure;
* `Within`: a state inside an enclosure and the same state on the inner text alone;
* `Parallel`, `parallel_move`: what a move does in the two states.
-/

namespace XPath

/-! ### A text as part of a longer one -/

/-- The token in a text that is longer by `k` bytes in front. -/
def Token.shift (k : Nat) (t : Token) : Token :=
  ⟨t.kind, t.text, k + t.offset⟩

@[simp] theorem Token.text_shift (k : Nat) (t : Token) : (t.shift k).text = t.text := rfl

namespace Cursor

variable {k n : Nat} {back : List Char}

/-- The place in a text that is longer by `k` bytes in front and by `back` behind. -/
def within (k : Nat) (back : List Char) (c : Cursor) : Cursor :=
  ⟨c.rest ++ back, k + c.offset⟩

@[simp] theorem rest_within (c : Cursor) : (c.within k back).rest = c.rest ++ back := rfl

theorem advance_within {c : Cursor} (hn : n ≤ c.rest.length) :
    (c.within k back).advance n = (c.advance n).within k back := by
  simp only [advance, within, List.take_append_of_le_length hn, List.drop_append_of_le_length hn,
    Nat.add_assoc]

theorem token_within {c : Cursor} (kind : Token.Kind) (hn : n ≤ c.rest.length) :
    (c.within k back).token kind n = (c.token kind n).shift k := by
  simp only [token, within, Token.shift, List.take_append_of_le_length hn]

end Cursor

namespace Lexer

/-! ### Words in front of the end of an enclosure -/

/-- The first character is one of the three that end an enclosure, so of no other class. -/
theorem startsWith_closer {p : Char → Bool} {back : List Char} (h : startsWith isCloser back)
    (hp : p ',' = false ∧ p ')' = false ∧ p ']' = false) : startsWith p back = false := by
  cases back with
  | nil => rfl
  | cons b back =>
    rw [startsWith_cons] at h ⊢
    simp only [isCloser, Bool.or_eq_true, beq_iff_eq] at h
    rcases h with (rfl | rfl) | rfl
    · exact hp.1
    · exact hp.2.1
    · exact hp.2.2

section Measures

variable {back : List Char} (hback : startsWith isCloser back)
include hback

theorem startsWith_append_closer {p : Char → Bool}
    (hp : p ',' = false ∧ p ')' = false ∧ p ']' = false) (cs : List Char) :
    startsWith p (cs ++ back) = startsWith p cs :=
  startsWith_append_of_not (startsWith_closer hback hp) cs

theorem startsWith_drop_append_closer {p : Char → Bool}
    (hp : p ',' = false ∧ p ')' = false ∧ p ']' = false) {cs : List Char} (hcs : cs ≠ []) :
    startsWith p ((cs ++ back).drop 1) = startsWith p (cs.drop 1) := by
  rw [List.drop_append_of_le_length (List.length_pos_iff.2 hcs),
    startsWith_append_closer hback hp]

theorem stepWordLength_append_closer (cs : List Char) :
    stepWordLength (cs ++ back) = stepWordLength cs := by
  unfold stepWordLength
  rw [startsWith_append_closer hback (by decide),
    takeWhile_append_of_not (startsWith_closer hback (by decide))]

theorem variableLength_append_closer (cs : List Char) :
    ∀ begun, variableLength begun (cs ++ back) = variableLength begun cs := by
  induction cs with
  | nil =>
    intro begun
    have hn : startsWith isNameChar back = false := startsWith_closer hback (by decide)
    have hc : startsWith (· == ':') back = false := startsWith_closer hback (by decide)
    exact variableLength_append hn hc begun rfl
  | cons c cs ih =>
    intro begun
    rw [List.cons_append, variableLength, variableLength, ih true,
      startsWith_append_closer hback (by decide)]

theorem numberLength_append_closer (cs : List Char) :
    numberLength (cs ++ back) = numberLength cs := by
  have hd : startsWith Char.isDigit back = false := startsWith_closer hback (by decide)
  have hle : (cs.takeWhile Char.isDigit).length ≤ cs.length :=
    (List.takeWhile_sublist Char.isDigit).length_le
  rw [numberLength_eq, numberLength_eq, takeWhile_append_of_not hd]
  simp only
  generalize (cs.takeWhile Char.isDigit).length = n at hle
  rw [List.drop_append_of_le_length hle, startsWith_append_closer hback (by decide)]
  split
  · rename_i hpoint
    have hpos := length_pos_of_startsWith hpoint
    rw [List.length_drop] at hpos
    rw [List.drop_append_of_le_length (by omega), takeWhile_append_of_not hd]
  · rfl

theorem operatorLength_append_closer (cs : List Char) :
    operatorLength (cs ++ back) = operatorLength cs := by
  have hn : startsWith isNameChar back = false := startsWith_closer hback (by decide)
  have he (rest : List Char) : startsWith (· == '=') (rest ++ back) = startsWith (· == '=') rest :=
    startsWith_append_closer hback (by decide) rest
  cases cs with
  | nil =>
    have hs : startsWith isSign back = false := startsWith_closer hback (by decide)
    rw [List.nil_append, operatorLength_of_not_sign hs, takeWhile_eq_nil hn]
    rfl
  | cons c rest =>
    rw [List.cons_append]
    by_cases hs : isSign c
    · rw [operatorLength_of_sign hs, operatorLength_of_sign hs, he]
    · have hs (cs : List Char) : startsWith isSign (c :: cs) = false := by simpa using hs
      rw [operatorLength_of_not_sign (hs _), operatorLength_of_not_sign (hs _), ← List.cons_append,
        takeWhile_append_of_not hn]

theorem skipBlank_within (k : Nat) (c : Cursor) :
    (c.within k back).skipBlank = c.skipBlank.within k back := by
  have hb : startsWith Text.isBlank back = false := startsWith_closer hback (by decide)
  simp only [Cursor.skipBlank, Cursor.skipWhile, Cursor.within, takeWhile_append_of_not hb,
    dropWhile_append_of_not hb, Nat.add_assoc]

end Measures

/-! ### Literals -/

/-- A literal whose quote does not come again is not closed. -/
theorem literal?_eq_none {c : Cursor} {q : Char} {body : List Char} (kind : Token.Kind)
    (hc : c.rest = q :: body) (hq : q ∉ body) : literal? c kind = none := by
  have hdiffer : ∀ d ∈ body, d != q := fun d hd => bne_iff_ne.2 (ne_of_mem_of_not_mem hd hq)
  have hbody : body.takeWhile (· != q) = body := by
    simpa using takeWhile_append_of_settled hdiffer (startsWith_nil _)
  unfold literal?
  rw [hc]
  simp only [hbody, Nat.lt_irrefl, if_false]

/-- A literal in front of other text is the literal alone, or it is not closed in front of it. -/
theorem literal?_within (k : Nat) (back : List Char) (kind : Token.Kind) {c : Cursor}
    (hc : c.rest ≠ []) :
    (∃ t next, literal? c kind = some (t, next) ∧
      literal? (c.within k back) kind = some (t.shift k, next.within k back)) ∨
    literal? (c.within k back) kind = none ∨
    ∃ t next, literal? (c.within k back) kind = some (t, next) ∧
      next.rest.length < back.length := by
  obtain ⟨q, body, hc⟩ := List.exists_cons_of_ne_nil hc
  have hw : (c.within k back).rest = q :: (body ++ back) := by
    rw [Cursor.rest_within, hc, List.cons_append]
  by_cases hbody : q ∈ body
  · obtain ⟨w, cs, rfl, hq⟩ := List.eq_append_cons_of_mem hbody
    have hlength : w.length + 2 ≤ c.rest.length := by
      rw [hc]
      simp only [List.length_cons, List.length_append]
      omega
    refine .inl ⟨_, _, literal?_eq_some kind hc hq, ?_⟩
    rw [List.append_assoc, List.cons_append] at hw
    rw [literal?_eq_some kind hw hq, Cursor.advance_within (by omega),
      Cursor.advance_within hlength,
      Cursor.token_within kind (by rw [Cursor.length_advance]; omega)]
  · by_cases hback : q ∈ back
    · obtain ⟨w, cs, rfl, hq⟩ := List.eq_append_cons_of_mem hback
      have hq' : q ∉ body ++ w := fun h => (List.mem_append.1 h).elim hbody hq
      rw [← List.append_assoc] at hw
      refine .inr (.inr ⟨_, _, literal?_eq_some kind hw hq', ?_⟩)
      rw [Cursor.length_advance, hw]
      simp only [List.length_cons, List.length_append]
      omega
    · exact .inr (.inl (literal?_eq_none kind hw fun h => (List.mem_append.1 h).elim hbody hback))

/-! ### States -/

def Enclosure.shift (k : Nat) : Enclosure → Enclosure
  | .predicate o => .predicate (k + o)
  | .call f o => .call f (k + o)

/-- The second state is the first one inside the enclosures `outer`, with `k` bytes more in front of
the text and with `back` behind it.  White space at the place does not count. -/
structure Within (k : Nat) (back : List Char) (outer : List Enclosure) (s s' : State) : Prop where
  mode : s'.mode = s.mode
  cursor : s'.cursor.skipBlank = s.cursor.skipBlank.within k back
  enclosures : s'.enclosures = s.enclosures.map (Enclosure.shift k) ++ outer

/-- The second move does inside the enclosures `outer` what the first one does on the inner text
alone, or it fails, or it reads something of the text `back` behind it. -/
inductive Parallel (k : Nat) (back : List Char) (outer : List Enclosure) : Move → Move → Prop
  | emit {tokens next next'} (within : Within k back outer next next') :
    Parallel k back outer (.emit tokens next) (.emit (tokens.map (Token.shift k)) next')
  | fail {m e} : Parallel k back outer m (.fail e)
  | past {m tokens next'} (shorter : next'.cursor.rest.length < back.length) :
    Parallel k back outer m (.emit tokens next')

/-! ### The same move inside an enclosure -/

theorem Parallel.ite {k : Nat} {back : List Char} {outer : List Enclosure} {p : Prop} [Decidable p]
    {m n m' n' : Move} (hm : p → Parallel k back outer m m')
    (hn : ¬p → Parallel k back outer n n') :
    Parallel k back outer (if p then m else n) (if p then m' else n') :=
  rel_ite hm hn

theorem Parallel.ite_right {k : Nat} {back : List Char} {outer : List Enclosure} {p : Prop}
    [Decidable p] {m m' n' : Move} (hm : p → Parallel k back outer m m')
    (hn : ¬p → Parallel k back outer m n') : Parallel k back outer m (if p then m' else n') := by
  split
  · exact hm ‹p›
  · exact hn ‹¬p›

section Moves

variable {k limit : Nat} {back : List Char} {outer : List Enclosure} {s s' : State}
variable (hback : startsWith isCloser back) (hw : Within k back outer s s')
include hback

/-- A move that goes on behind the first character of `back`. -/
theorem parallel_of_nil {m : Move} {tokens : List Token} {mode : Mode} {c : Cursor}
    (hc : c.rest = []) :
    Parallel k back outer m (s'.continue tokens mode ((c.within k back).advance 1)) := by
  refine .past ?_
  rw [Cursor.length_advance, Cursor.rest_within, hc, List.nil_append]
  exact Nat.sub_one_lt (Nat.ne_of_gt (length_pos_of_startsWith hback))

include hw

theorem parallel_continue {tokens : List Token} {mode : Mode} {c : Cursor} :
    Parallel k back outer (s.continue tokens mode c)
      (s'.continue (tokens.map (Token.shift k)) mode (c.within k back)) :=
  .emit ⟨rfl, skipBlank_within hback k c, hw.enclosures⟩

theorem parallel_enter {tokens : List Token} {c : Cursor} {e : Enclosure} :
    Parallel k back outer (s.enter (limit - outer.length) tokens c e)
      (s'.enter limit (tokens.map (Token.shift k)) (c.within k back) (e.shift k)) := by
  have hlength : s'.enclosures.length = s.enclosures.length + outer.length := by
    rw [hw.enclosures, List.length_append, List.length_map]
  unfold State.enter
  by_cases hl : limit ≤ s'.enclosures.length
  · rw [if_pos hl]
    exact .fail
  · rw [if_neg hl, if_neg (by omega)]
    refine .emit ⟨rfl, skipBlank_within hback k c, ?_⟩
    show e.shift k :: s'.enclosures = _
    rw [hw.enclosures, List.map_cons, List.cons_append]

/-- The parenthesis that ends a node type may lie behind the inner text. -/
theorem parallel_close {tokens : List Token} {c : Cursor} {e e' : LexError} :
    Parallel k back outer
      (if startsWith (· == ')') c.rest then s.continue tokens .trail (c.advance 1) else .fail e)
      (if startsWith (· == ')') (c.within k back).rest then
        s'.continue (tokens.map (Token.shift k)) .trail ((c.within k back).advance 1)
      else .fail e') := by
  by_cases hc : c.rest = []
  · exact .ite_right (fun _ => parallel_of_nil hback hc) (fun _ => .fail)
  · rw [Cursor.rest_within, startsWith_append hc]
    refine .ite (fun _ => ?_) (fun _ => .fail)
    rw [Cursor.advance_within (List.length_pos_iff.2 hc)]
    exact parallel_continue hback hw

theorem parallel_nodeTypeMove {c paren : Cursor} {n : Nat} (hn : n ≤ c.rest.length)
    (hp : paren.rest ≠ []) :
    Parallel k back outer (nodeTypeMove s c n paren)
      (nodeTypeMove s' (c.within k back) n (paren.within k back)) := by
  have hinside : ((paren.within k back).advance 1).skipBlank
      = (paren.advance 1).skipBlank.within k back := by
    rw [Cursor.advance_within (List.length_pos_iff.2 hp), skipBlank_within hback]
  rw [nodeTypeMove_eq, nodeTypeMove_eq]
  simp only [hinside, Cursor.token_within _ hn, Token.text_shift]
  generalize (paren.advance 1).skipBlank = inside
  rw [Cursor.rest_within, startsWith_append_closer hback (by decide)]
  refine .ite (fun htarget => ?_) (fun _ => parallel_close hback hw)
  have hne : inside.rest ≠ [] := by
    intro h
    simp [h] at htarget
  rcases literal?_within k back .target hne with ⟨t, next, hl, hl'⟩ | hl' | ⟨t, next, hl', hlt⟩
  · simp only [hl, hl', skipBlank_within hback]
    exact parallel_close hback hw
  · simp only [hl']
    exact .fail
  · have hle := next.length_skipBlank_le
    simp only [hl']
    refine .ite_right (fun _ => .past ?_) (fun _ => .fail)
    rw [Cursor.length_advance]
    omega

theorem parallel_callMove {c paren : Cursor} {n : Nat} (hn : n ≤ c.rest.length)
    (hp : paren.rest ≠ []) :
    Parallel k back outer (callMove s (limit - outer.length) c n paren)
      (callMove s' limit (c.within k back) n (paren.within k back)) := by
  have hinside : ((paren.within k back).advance 1).skipBlank
      = (paren.advance 1).skipBlank.within k back := by
    rw [Cursor.advance_within (List.length_pos_iff.2 hp), skipBlank_within hback]
  rw [callMove_eq, callMove_eq]
  simp only [hinside, Cursor.token_within _ hn, Cursor.token_within _ (Nat.zero_le _),
    Token.text_shift]
  generalize (paren.advance 1).skipBlank = inside
  by_cases hi : inside.rest = []
  · rw [hi, startsWith_nil, if_neg Bool.false_ne_true]
    exact .ite_right (fun _ => parallel_of_nil hback hi) (fun _ => parallel_enter hback hw)
  · have hlength : 1 ≤ inside.rest.length := List.length_pos_iff.2 hi
    rw [Cursor.rest_within, startsWith_append hi, Cursor.token_within _ hlength,
      Cursor.advance_within hlength]
    exact .ite (fun _ => parallel_continue hback hw) (fun _ => parallel_enter hback hw)

theorem parallel_stepMove :
    Parallel k back outer (stepMove s (limit - outer.length)) (stepMove s' limit) := by
  rw [stepMove_eq, stepMove_eq, hw.cursor]
  generalize s.cursor.skipBlank = c
  have hn : stepWordLength c.rest ≤ c.rest.length := stepWordLength_le c.rest
  have hnext : (((c.within k back).advance (stepWordLength c.rest)).skipBlank)
      = (c.advance (stepWordLength c.rest)).skipBlank.within k back := by
    rw [Cursor.advance_within hn, skipBlank_within hback]
  simp only [Cursor.rest_within, stepWordLength_append_closer hback, hnext,
    Cursor.token_within _ hn, Token.text_shift]
  generalize (c.advance (stepWordLength c.rest)).skipBlank = next
  generalize stepWordLength c.rest = n at hn
  rw [startsWith_append_closer hback (by decide), startsWith_append_closer hback (by decide),
    startsWith_append_closer hback (by decide)]
  refine .ite (fun hcolon => ?_) (fun _ => .ite (fun hparen => ?_) (fun _ => .ite
    (fun _ => parallel_continue hback hw) (fun _ => .ite (fun hsign => ?_) (fun _ => ?_))))
  · have hlength := length_pos_of_startsWith hcolon
    have hsecond := startsWith_drop_append_closer hback (p := (· == ':')) (by decide)
      (List.length_pos_iff.1 hlength)
    simp only [hsecond]
    refine .ite (fun hsecond => .ite (fun _ => ?_) (fun _ => .fail)) (fun _ => .ite (fun _ => .fail)
      (fun _ => ?_))
    · rw [Cursor.advance_within (one_lt_length_of_startsWith hsecond)]
      exact parallel_continue hback hw
    · rw [Cursor.advance_within hlength]
      exact parallel_continue hback hw
  · have hne : next.rest ≠ [] := ne_nil_of_startsWith hparen
    exact .ite (fun _ => .fail) (fun _ => .ite (fun _ => parallel_nodeTypeMove hback hw hn hne)
      (fun _ => parallel_callMove hback hw hn hne))
  · have hlength := length_pos_of_startsWith hsign
    rw [Cursor.token_within _ hlength, Cursor.advance_within hlength]
    exact parallel_continue hback hw
  · cases s'.last <;> exact .fail

theorem parallel_trailMove :
    Parallel k back outer (trailMove s (limit - outer.length)) (trailMove s' limit) := by
  rw [trailMove_eq, trailMove_eq, hw.cursor]
  generalize s.cursor.skipBlank = c
  simp only [Cursor.rest_within, Cursor.token_within _ (Nat.zero_le _)]
  rw [startsWith_append_closer hback (by decide), startsWith_append_closer hback (by decide)]
  refine .ite (fun hbracket => ?_) (fun _ => .ite (fun hslash => ?_) (fun _ => ?_))
  · have hlength := length_pos_of_startsWith hbracket
    rw [Cursor.token_within _ hlength, Cursor.advance_within hlength]
    exact parallel_enter hback hw
  · have hlength := length_pos_of_startsWith hslash
    have hsecond := startsWith_drop_append_closer hback (p := (· == '/')) (by decide)
      (List.length_pos_iff.1 hlength)
    simp only [hsecond]
    refine .ite (fun hsecond => ?_) (fun _ => ?_)
    · have hlength := one_lt_length_of_startsWith hsecond
      rw [Cursor.token_within _ hlength, Cursor.advance_within hlength]
      exact parallel_continue hback hw
    · rw [Cursor.token_within _ hlength, Cursor.advance_within hlength]
      exact parallel_continue hback hw
  · exact parallel_continue hback hw

theorem parallel_operandMove : Parallel k back outer (operandMove s) (operandMove s') := by
  cases hc : s.cursor.skipBlank.rest with
  | nil =>
    have hfirst : startsWith isCloser s'.cursor.skipBlank.rest := by
      rw [hw.cursor, Cursor.rest_within, hc]
      exact hback
    obtain ⟨e, he⟩ := operandMove_closer hfirst
    rw [he]
    exact .fail
  | cons found rest =>
    have hc' : s'.cursor.skipBlank.rest = found :: (rest ++ back) := by
      rw [hw.cursor, Cursor.rest_within, hc, List.cons_append]
    rw [operandMove_cons hc, operandMove_cons hc', hw.cursor]
    generalize s.cursor.skipBlank = c at hc
    have hlength : 1 ≤ c.rest.length := by simp [hc]
    have hnumber := numberLength_le c.rest
    have hname := variableLength_le (c.advance 1).rest false
    simp only [Cursor.advance_within hlength, skipBlank_within hback, Cursor.rest_within,
      variableLength_append_closer hback, numberLength_append_closer hback,
      Cursor.token_within _ hlength, Cursor.token_within _ (Nat.zero_le _),
      Cursor.token_within _ hnumber, Cursor.advance_within hnumber,
      Cursor.token_within _ hname, Cursor.advance_within hname]
    rw [startsWith_append_closer hback (by decide), startsWith_append_closer hback (by decide),
      startsWith_append_closer hback (by decide)]
    -- both moves pass the same tests; only a literal may go on into what is behind
    refine .ite (fun hslash => .ite (fun hsecond => ?_) (fun _ => .ite (fun _ => ?_) (fun _ => ?_)))
      (fun _ => .ite (fun _ => .ite (fun _ => .fail) (fun _ => ?_)) (fun _ => .ite (fun _ => ?_)
        (fun _ => .ite (fun _ => ?_) (fun _ => .ite (fun _ => ?_) (fun _ => .fail)))))
    · have hlength : 2 ≤ c.rest.length := by
        have := length_pos_of_startsWith hsecond
        rw [hc, List.length_cons]
        omega
      rw [Cursor.token_within _ hlength, Cursor.advance_within hlength]
      exact parallel_continue hback hw
    · exact parallel_continue hback hw
    · exact parallel_continue hback hw
    · exact parallel_continue hback hw
    -- a literal
    · have hne : c.rest ≠ [] := List.length_pos_iff.1 hlength
      rcases literal?_within k back .string hne with ⟨t, next, hl, hl'⟩ | hl' | ⟨t, next, hl', hlt⟩
      · simp only [hl, hl']
        exact parallel_continue hback hw
      · simp only [hl']
        exact .fail
      · simp only [hl']
        exact .past hlt
    · exact parallel_continue hback hw
    · exact parallel_continue hback hw

theorem parallel_closingMove {c : Cursor} (hs : s.enclosures ≠ []) (hc : c.rest ≠ []) :
    Parallel k back outer (closingMove s c) (closingMove s' (c.within k back)) := by
  have hlength : 1 ≤ c.rest.length := List.length_pos_iff.2 hc
  have hemit (token : Token) (es : List Enclosure) :
      Parallel k back outer (s.emit [token] .trail (c.advance 1) es)
        (s'.emit [token.shift k] .trail ((c.advance 1).within k back)
          (es.map (Enclosure.shift k) ++ outer)) :=
    .emit ⟨rfl, skipBlank_within hback k _, rfl⟩
  have hes := hw.enclosures
  obtain ⟨e, es, hs⟩ := List.exists_cons_of_ne_nil hs
  rw [hs, List.map_cons, List.cons_append] at hes
  cases e with
  | predicate o =>
    rw [closingMove_predicate hs, closingMove_predicate hes, Cursor.rest_within,
      startsWith_append hc, Cursor.token_within _ hlength, Cursor.advance_within hlength]
    exact .ite (fun _ => hemit _ es) (fun _ => .fail)
  | call f o =>
    obtain ⟨found, rest, hc⟩ := List.exists_cons_of_ne_nil hc
    have hc' : (c.within k back).rest = found :: (rest ++ back) := by
      rw [Cursor.rest_within, hc, List.cons_append]
    rw [closingMove_call hs hc, closingMove_call hes hc', Cursor.token_within _ hlength,
      Cursor.token_within _ hlength, Cursor.advance_within hlength]
    exact .ite (fun _ => hemit _ es)
      (fun _ => .ite (fun _ => parallel_continue hback hw) (fun _ => .fail))

omit hw in
/-- At the end of the inner text the enclosure ends. -/
theorem parallel_closingMove_past {m : Move} {c : Cursor} (hs : s'.enclosures ≠ [])
    (hc : c.rest = back) : Parallel k back outer m (closingMove s' c) := by
  have hpos := length_pos_of_startsWith hback
  have hemit (tokens : List Token) (mode : Mode) (es : List Enclosure) :
      Parallel k back outer m (s'.emit tokens mode (c.advance 1) es) := by
    refine .past ?_
    rw [Cursor.length_advance, hc]
    omega
  obtain ⟨e, es, hs⟩ := List.exists_cons_of_ne_nil hs
  cases e with
  | predicate o =>
    rw [closingMove_predicate hs]
    exact .ite_right (fun _ => hemit _ _ _) (fun _ => .fail)
  | call f o =>
    obtain ⟨found, rest, hfound⟩ := List.exists_cons_of_length_pos hpos
    rw [closingMove_call hs (hc.trans hfound)]
    exact .ite_right (fun _ => hemit _ _ _)
      (fun _ => .ite_right (fun _ => hemit _ _ _) (fun _ => .fail))

/-- An operator is read inside an enclosure as it is on the inner text alone, unless the enclosure
ends. -/
theorem parallel_operatorMove
    (hinner : s.enclosures = [] → startsWith isCloser s.cursor.skipBlank.rest = false) :
    Parallel k back outer (operatorMove s) (operatorMove s') := by
  cases hc : s.cursor.skipBlank.rest with
  | nil =>
    have hback' : s'.cursor.skipBlank.rest = back := by
      rw [hw.cursor, Cursor.rest_within, hc, List.nil_append]
    have hlength : operatorLength back = 0 := operatorLength_append_closer hback []
    obtain ⟨found, rest, hfound⟩ := List.exists_cons_of_length_pos (length_pos_of_startsWith hback)
    rw [operatorMove_cons (hback'.trans hfound)]
    simp only [hback', hlength, if_true]
    refine .ite_right (fun hends => parallel_closingMove_past hback ?_ hback') (fun _ => .fail)
    intro hs
    simp [hs] at hends
  | cons found rest =>
    have hc' : s'.cursor.skipBlank.rest = found :: (rest ++ back) := by
      rw [hw.cursor, Cursor.rest_within, hc, List.cons_append]
    rw [operatorMove_cons hc, operatorMove_cons hc', hw.cursor]
    rw [hc, startsWith_cons] at hinner
    have hlength := operatorLength_le s.cursor.skipBlank.rest
    by_cases hcloser : isCloser found
    · have hs : s.enclosures ≠ [] := by
        intro hs
        rw [hinner hs] at hcloser
        exact Bool.false_ne_true hcloser
      have hs' : s'.enclosures ≠ [] := by
        rw [hw.enclosures]
        simp [hs]
      rw [if_pos (by simp [hcloser, hs]), if_pos (by simp [hcloser, hs'])]
      exact parallel_closingMove hback hw hs (by rw [hc]; exact List.cons_ne_nil _ _)
    · simp only [hcloser, Bool.false_and, Bool.false_eq_true, if_false, Cursor.rest_within,
        operatorLength_append_closer hback, Cursor.token_within _ hlength,
        Cursor.advance_within hlength]
      exact .ite (fun _ => .fail) (fun _ => parallel_continue hback hw)

/-- Inside an enclosure every move does what it does on the inner text alone, unless it reads on
behind that text or the enclosure ends. -/
theorem parallel_move
    (hinner : s.mode = .operator → s.enclosures = [] →
      startsWith isCloser s.cursor.skipBlank.rest = false) :
    Parallel k back outer (move (limit - outer.length) s) (move limit s') := by
  unfold move
  rw [hw.mode]
  cases hm : s.mode with
  | operand => exact parallel_operandMove hback hw
  | step => exact parallel_stepMove hback hw
  | trail => exact parallel_trailMove hback hw
  | operator => exact parallel_operatorMove hback hw (hinner hm)

end Moves

end Lexer
end XPath
