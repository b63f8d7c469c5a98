import XPath.Proofs.Expr.Balanced
import XPath.Proofs.Token.Lexed
import XPath.Proofs.Token.Place

/-!
# What a move does to the enclosures

A move reads on in the text, and it opens or closes at most one enclosure.  An argument or a
predicate begins behind a bracket or a comma and ends in front of one; the tokens tell where.

* `OpensAt`, `ClosesAt`: the token of a character where an argument or a predicate begins or ends;
* `OpensAt.unique`: it tells the place;
* `Turn`, `turn_of_move`: the tokens of a move, and the enclosures and the place behind it.
-/

namespace XPath

namespace Lexer

open XPath.Parser (Span)

/-! ### Where arguments and predicates begin and end -/

/-- The token belongs to the character at the place, behind which an argument or a predicate begins.
A first argument has its token behind the white space. -/
inductive OpensAt : Token → Cursor → Prop
  | predicateStart {p cs} (text : p.rest = '[' :: cs) : OpensAt (p.token .predicateStart 1) p
  | first {p cs} (text : p.rest = '(' :: cs) :
    OpensAt ((p.advance 1).skipBlank.token .argument 0) p
  | argument {p cs} (text : p.rest = ',' :: cs) : OpensAt (p.token .argument 1) p

/-- The token is that of the character at the place, in front of which an argument or a predicate
ends. -/
inductive ClosesAt : Token → Cursor → Prop
  | predicateEnd {q cs} (text : q.rest = ']' :: cs) : ClosesAt (q.token .predicateEnd 1) q
  | callEnd {q cs} (text : q.rest = ')' :: cs) : ClosesAt (q.token .callEnd 1) q
  | argument {q cs} (text : q.rest = ',' :: cs) : ClosesAt (q.token .argument 1) q

/-- An argument or a predicate begins with the token in a state and is read from the next one on. -/
structure Begins (s : State) (t : Token) (next : State) : Prop where
  mode : next.mode = .operand
  enclosed : next.enclosures ≠ []
  place : ∃ p, s.cursor.Leads p ∧ OpensAt t p ∧
    (next.cursor = p.advance 1 ∨ next.cursor = (p.advance 1).skipBlank)

/-- What stands in front of the last of some characters. -/
theorem eq_of_append_cons {d : Char} {w w' cs cs' : List Char} (h : w ++ d :: cs = w' ++ d :: cs')
    (hcs : d ∉ cs) (hcs' : d ∉ cs') : w = w' := by
  have hnone {xs ys zs : List Char} (hx : d :: xs = zs ++ d :: ys) (hd : d ∉ xs) : zs = [] := by
    cases zs with
    | nil => rfl
    | cons z zs =>
      rw [(List.cons.inj hx).2] at hd
      simp at hd
  rcases List.append_eq_append_iff.1 h with ⟨zs, hw, hzs⟩ | ⟨zs, hw, hzs⟩
  · rw [hw, hnone hzs hcs, List.append_nil]
  · rw [hw, hnone hzs hcs', List.append_nil]

/-- White space is no parenthesis. -/
theorem paren_not_mem_takeWhile (cs : List Char) : '(' ∉ cs.takeWhile Text.isBlank := by
  intro hmem
  exact absurd (List.all_eq_true.1 List.all_takeWhile '(' hmem) (by decide)

/-- The parenthesis in front of the white space is found again. -/
theorem eq_of_skipBlank {c p p' : Cursor} (hp : c.Leads p) (hp' : c.Leads p') {cs cs' : List Char}
    (text : p.rest = '(' :: cs) (text' : p'.rest = '(' :: cs')
    (hoffset : (p.advance 1).skipBlank.offset = (p'.advance 1).skipBlank.offset) : p = p' := by
  have hbehind : (p.advance 1).skipBlank = (p'.advance 1).skipBlank :=
    (hp.advance 1).skipBlank.unique (hp'.advance 1).skipBlank hoffset
  have hcs : cs.dropWhile Text.isBlank = cs'.dropWhile Text.isBlank := by
    have hrest := congrArg Cursor.rest hbehind
    simpa [text, text', Text.trimStart] using hrest
  obtain ⟨w, hrest, hw⟩ := hp
  obtain ⟨w', hrest', hw'⟩ := hp'
  have hfront : w ++ '(' :: cs.takeWhile Text.isBlank
      = w' ++ '(' :: cs'.takeWhile Text.isBlank := by
    have hall : w ++ '(' :: cs = w' ++ '(' :: cs' := by
      rw [← text, ← text', ← hrest, ← hrest']
    rw [← List.takeWhile_append_dropWhile (p := Text.isBlank) (l := cs),
      ← List.takeWhile_append_dropWhile (p := Text.isBlank) (l := cs'), hcs] at hall
    have hbehind : (w ++ '(' :: cs.takeWhile Text.isBlank) ++ cs'.dropWhile Text.isBlank
        = (w' ++ '(' :: cs'.takeWhile Text.isBlank) ++ cs'.dropWhile Text.isBlank := by
      simpa using hall
    exact List.append_cancel_right hbehind
  have hsame : w = w' :=
    eq_of_append_cons hfront (paren_not_mem_takeWhile cs) (paren_not_mem_takeWhile cs')
  exact Cursor.Leads.unique ⟨w, hrest, hw⟩ ⟨w', hrest', hw'⟩ (by rw [hw, hw', hsame])

/-- A token opens at one place only. -/
theorem OpensAt.unique {c p p' : Cursor} {t : Token} (h : OpensAt t p) (h' : OpensAt t p')
    (hp : c.Leads p) (hp' : c.Leads p') : p = p' := by
  generalize ht : t = t' at h'
  have hkind := congrArg Token.kind ht
  have htext := congrArg Token.text ht
  have hoffset := congrArg Token.offset ht
  cases h with
  | predicateStart text =>
    cases h' with
    | predicateStart text' => exact hp.unique hp' hoffset
    | first text' => exact absurd hkind (by simp [Cursor.token])
    | argument text' => exact absurd hkind (by simp [Cursor.token])
  | argument text =>
    cases h' with
    | predicateStart text' => exact absurd hkind (by simp [Cursor.token])
    | first text' => exact absurd htext (by simp [Cursor.token, text])
    | argument text' => exact hp.unique hp' hoffset
  | first text =>
    cases h' with
    | predicateStart text' => exact absurd hkind (by simp [Cursor.token])
    | first text' => exact eq_of_skipBlank hp hp' text text' hoffset
    | argument text' => exact absurd htext (by simp [Cursor.token, text'])

theorem ClosesAt.first {t : Token} {q : Cursor} (h : ClosesAt t q) :
    startsWith isCloser q.rest := by
  cases h with
  | predicateEnd text | callEnd text | argument text =>
    rw [text]
    rfl

theorem ClosesAt.offset {t : Token} {q : Cursor} (h : ClosesAt t q) : t.offset = q.offset := by
  cases h with
  | predicateEnd text | callEnd text | argument text => rfl

theorem ClosesAt.kind {t : Token} {q : Cursor} (h : ClosesAt t q) :
    t.kind.closes ∨ t.kind = .argument := by
  cases h with
  | predicateEnd text => exact .inl rfl
  | callEnd text => exact .inl rfl
  | argument text => exact .inr rfl

/-! ### Moves -/

/-- What is read where an expression ends: a token and the next state. -/
inductive Closing (s : State) : Token → State → Prop
  /-- The argument ends, and the next one begins. -/
  | argument {t next} (kind : t.kind = .argument) (closes : ClosesAt t s.cursor.skipBlank)
    (same : next.enclosures = s.enclosures) (begins : Begins s t next) : Closing s t next
  /-- One enclosure less is open. -/
  | ends {t next e} (kind : t.kind.closes) (closes : ClosesAt t s.cursor.skipBlank)
    (leads : s.cursor.Leads next.cursor) (less : s.enclosures = e :: next.enclosures) :
    Closing s t next

/-- What a move reads from a state: its tokens and the next state. -/
inductive Turn (limit : Nat) (s : State) : List Token → State → Prop
  /-- The enclosures stay. -/
  | plain {tokens next} (kinds : ∀ t ∈ tokens, Span.expression.admits t.kind)
    (leads : s.cursor.Leads next.cursor) (same : next.enclosures = s.enclosures) :
    Turn limit s tokens next
  | emptyCall {t u next} (kind : t.kind = .call) (kind' : u.kind = .callEnd)
    (leads : s.cursor.Leads next.cursor) (same : next.enclosures = s.enclosures) :
    Turn limit s [t, u] next
  /-- One more enclosure is open. -/
  | call {t u next e} (kind : t.kind = .call) (kind' : u.kind = .argument)
    (depth : s.enclosures.length < limit) (more : next.enclosures = e :: s.enclosures)
    (begins : Begins s u next) : Turn limit s [t, u] next
  | predicate {t next e} (kind : t.kind = .predicateStart)
    (depth : s.enclosures.length < limit) (more : next.enclosures = e :: s.enclosures)
    (begins : Begins s t next) : Turn limit s [t] next
  | closing {t next} (mode : s.mode = .operator) (closing : Closing s t next) :
    Turn limit s [t] next

variable {limit n : Nat} {s next : State} {tokens us : List Token} {c paren : Cursor}

theorem turn_of_continue {mode : Mode} (h : s.continue tokens mode c = .emit us next)
    (leads : s.cursor.Leads c) (kinds : ∀ t ∈ tokens, Span.expression.admits t.kind) :
    Turn limit s us next := by
  obtain ⟨rfl, rfl⟩ := State.continue_eq_emit.1 h
  exact .plain kinds leads rfl

theorem forall_kinds_singleton {t : Token} {k : Token.Kind} (kind : t.kind = k)
    (hk : Span.expression.admits k) : ∀ u ∈ [t], Span.expression.admits u.kind := by
  intro u hu
  rw [List.mem_singleton.1 hu, kind]
  exact hk

theorem forall_kinds_pair {t t' : Token} {k k' : Token.Kind} (kind : t.kind = k)
    (hk : Span.expression.admits k) (kind' : t'.kind = k') (hk' : Span.expression.admits k') :
    ∀ u ∈ [t, t'], Span.expression.admits u.kind :=
  List.forall_mem_cons.2 ⟨kind ▸ hk, forall_kinds_singleton kind' hk'⟩

theorem turn_of_nodeTypeMove (h : nodeTypeMove s c n paren = .emit us next)
    (hp : s.cursor.Leads paren) : Turn limit s us next := by
  have hinside := (hp.advance 1).skipBlank
  unfold nodeTypeMove at h
  simp only at h
  split at h
  · split at h
    · rename_i t next' hl
      obtain ⟨kind, hnext'⟩ := leads_of_literal? hl
      split at h
      · exact turn_of_continue h ((hinside.trans hnext').skipBlank.advance 1)
          (forall_kinds_pair rfl rfl kind rfl)
      · simp at h
    · simp at h
  · split at h
    · exact turn_of_continue h (hinside.advance 1) (forall_kinds_singleton rfl rfl)
    · simp at h

theorem turn_of_callMove (h : callMove s limit c n paren = .emit us next)
    (hp : s.cursor.Leads paren) (hparen : ∃ rest, paren.rest = '(' :: rest) :
    Turn limit s us next := by
  have hinside := (hp.advance 1).skipBlank
  obtain ⟨rest, hparen⟩ := hparen
  unfold callMove at h
  simp only at h
  split at h
  · obtain ⟨rfl, rfl⟩ := State.continue_eq_emit.1 h
    exact .emptyCall rfl rfl (hinside.advance 1) rfl
  · obtain ⟨depth, rfl, rfl⟩ := State.enter_eq_emit.1 h
    exact .call rfl rfl depth rfl
      ⟨rfl, List.cons_ne_nil _ _, paren, hp, .first hparen, .inr rfl⟩

theorem turn_of_stepMove (h : stepMove s limit = .emit us next) : Turn limit s us next := by
  have hc := (Cursor.Leads.refl s.cursor).skipBlank
  have hnext := (hc.advance (stepWordLength s.cursor.skipBlank.rest)).skipBlank
  unfold stepMove at h
  simp only at h
  split at h
  · split at h
    · exact turn_of_continue h (hnext.advance 2) (forall_kinds_singleton rfl rfl)
    · simp at h
  · split at h
    · simp at h
    · exact turn_of_continue h (hnext.advance 1) (forall_kinds_singleton rfl rfl)
  · rename_i hparen
    split at h
    · simp at h
    · split at h
      · exact turn_of_nodeTypeMove h hnext
      · exact turn_of_callMove h hnext ⟨_, hparen⟩
  · split at h
    · exact turn_of_continue h hnext (forall_kinds_singleton rfl rfl)
    · split at h
      · exact turn_of_continue h (hnext.advance 1) (forall_kinds_singleton rfl rfl)
      · split at h <;> simp at h

theorem turn_of_trailMove (h : trailMove s limit = .emit us next) : Turn limit s us next := by
  have hc := (Cursor.Leads.refl s.cursor).skipBlank
  unfold trailMove at h
  simp only at h
  split at h
  · rename_i hbracket
    obtain ⟨depth, rfl, rfl⟩ := State.enter_eq_emit.1 h
    exact .predicate rfl depth rfl
      ⟨rfl, List.cons_ne_nil _ _, _, hc, .predicateStart hbracket, .inl rfl⟩
  · exact turn_of_continue h (hc.advance 2) (forall_kinds_singleton rfl rfl)
  · exact turn_of_continue h (hc.advance 1) (forall_kinds_singleton rfl rfl)
  · exact turn_of_continue h hc (forall_kinds_singleton rfl rfl)

theorem turn_of_operandMove (h : operandMove s = .emit us next) : Turn limit s us next := by
  have hc := (Cursor.Leads.refl s.cursor).skipBlank
  unfold operandMove at h
  simp only at h
  split at h
  · rename_i hend
    exact absurd h (closingMove_ne_emit hend)
  · exact turn_of_continue h (hc.advance 2) (forall_kinds_singleton rfl rfl)
  · split at h
    · exact turn_of_continue h (hc.advance 1).skipBlank (forall_kinds_singleton rfl rfl)
    · exact turn_of_continue h (hc.advance 1).skipBlank (forall_kinds_pair rfl rfl rfl rfl)
  · split at h
    · simp at h
    · exact turn_of_continue h ((hc.advance 1).advance _) (forall_kinds_singleton rfl rfl)
  · split at h
    · split at h
      · rename_i t next' hl
        obtain ⟨kind, hnext'⟩ := leads_of_literal? hl
        exact turn_of_continue h (hc.trans hnext') (forall_kinds_singleton kind rfl)
      · simp at h
    · split at h
      · exact turn_of_continue h (hc.advance _) (forall_kinds_singleton rfl rfl)
      · split at h
        · exact turn_of_continue h hc (by simp)
        · simp at h

theorem closing_of_closingMove (h : closingMove s s.cursor.skipBlank = .emit us next) :
    ∃ t, us = [t] ∧ Closing s t next := by
  have hc := (Cursor.Leads.refl s.cursor).skipBlank
  unfold closingMove at h
  split at h
  · simp at h
  · rename_i hes
    split at h
    · rename_i hbracket
      obtain ⟨rfl, rfl⟩ := State.emit_eq_emit.1 h
      exact ⟨_, rfl, .ends rfl (.predicateEnd hbracket) (hc.advance 1) hes⟩
    · simp at h
  · rename_i hes
    split at h
    · simp at h
    · rename_i hparen
      obtain ⟨rfl, rfl⟩ := State.emit_eq_emit.1 h
      exact ⟨_, rfl, .ends rfl (.callEnd hparen) (hc.advance 1) hes⟩
    · rename_i hcomma
      obtain ⟨rfl, rfl⟩ := State.continue_eq_emit.1 h
      have hne : s.enclosures ≠ [] := by
        rw [hes]
        exact List.cons_ne_nil _ _
      exact ⟨_, rfl, .argument rfl (.argument hcomma) rfl
        ⟨rfl, hne, _, hc, .argument hcomma, .inl rfl⟩⟩
    · simp at h

theorem turn_of_closingMove (h : closingMove s s.cursor.skipBlank = .emit us next)
    (mode : s.mode = .operator) : Turn limit s us next := by
  obtain ⟨t, rfl, hclosing⟩ := closing_of_closingMove h
  exact .closing mode hclosing

theorem turn_of_operatorMove (h : operatorMove s = .emit us next) (mode : s.mode = .operator) :
    Turn limit s us next := by
  have hc := (Cursor.Leads.refl s.cursor).skipBlank
  unfold operatorMove at h
  simp only at h
  split at h
  · exact turn_of_closingMove h mode
  · split at h
    · exact turn_of_closingMove h mode
    · split at h
      · simp at h
      · exact turn_of_continue h (hc.advance _) (forall_kinds_singleton rfl rfl)

/-- Every move that goes on is a turn. -/
theorem turn_of_move (h : move limit s = .emit us next) : Turn limit s us next := by
  unfold move at h
  split at h
  · exact turn_of_operandMove h
  · exact turn_of_stepMove h
  · exact turn_of_trailMove h
  · rename_i hm
    exact turn_of_operatorMove h hm

theorem Begins.leads {t : Token} (h : Begins s t next) : s.cursor.Leads next.cursor := by
  obtain ⟨p, hp, -, hnext | hnext⟩ := h.place
  · rw [hnext]
    exact hp.advance 1
  · rw [hnext]
    exact (hp.advance 1).skipBlank

theorem Closing.leads {t : Token} (h : Closing s t next) : s.cursor.Leads next.cursor := by
  cases h with
  | argument kind closes same begins => exact begins.leads
  | ends kind closes leads less => exact leads

theorem Closing.closes {t : Token} (h : Closing s t next) : ClosesAt t s.cursor.skipBlank := by
  cases h with
  | argument kind closes same begins => exact closes
  | ends kind closes leads less => exact closes

/-- A move reads on. -/
theorem Turn.leads (h : Turn limit s us next) : s.cursor.Leads next.cursor := by
  cases h with
  | plain kinds leads same => exact leads
  | emptyCall kind kind' leads same => exact leads
  | call kind kind' depth more begins => exact begins.leads
  | predicate kind depth more begins => exact begins.leads
  | closing mode closing => exact closing.leads

/-- A move keeps to the limit. -/
theorem Turn.depth_le (h : Turn limit s us next) (hs : s.enclosures.length ≤ limit) :
    next.enclosures.length ≤ limit := by
  cases h with
  | plain kinds leads same => rwa [same]
  | emptyCall kind kind' leads same => rwa [same]
  | call kind kind' depth more begins => rwa [more]
  | predicate kind depth more begins => rwa [more]
  | closing mode closing =>
    cases closing with
    | argument kind closes same begins => rwa [same]
    | ends kind closes leads less =>
      rw [less, List.length_cons] at hs
      omega

end Lexer
end XPath
