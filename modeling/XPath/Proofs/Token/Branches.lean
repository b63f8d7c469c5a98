import XPath.Proofs.Token.Words

/-!
# The moves by what comes first

A move is chosen by the characters in front.  Here each one is written as a chain of tests on them,
so that two moves which pass the same tests can be followed side by side.

* `nodeTypeMove_eq`, `callMove_eq`, `stepMove_eq`, `trailMove_eq`: the moves at a step and behind
  it;
* `operandMove_cons`, `operatorMove_cons`: the moves between operands and operators;
* `closingMove_predicate`, `closingMove_call`: the moves where an enclosure ends.
-/

namespace XPath
namespace Lexer

/-- Two outcomes that are chosen by the same test. -/
theorem rel_ite {α β : Type} {R : α → β → Prop} {p : Prop} [Decidable p] {a b : α} {a' b' : β}
    (ha : p → R a a') (hb : ¬p → R b b') : R (if p then a else b) (if p then a' else b') := by
  by_cases h : p
  · rw [if_pos h, if_pos h]
    exact ha h
  · rw [if_neg h, if_neg h]
    exact hb h

theorem nodeTypeMove_eq (s : State) (c : Cursor) (n : Nat) (paren : Cursor) :
    nodeTypeMove s c n paren =
      let name := c.token .nodeType n
      let inside := (paren.advance 1).skipBlank
      let close (tokens : List Token) (c : Cursor) : Move :=
        if startsWith (· == ')') c.rest then s.continue tokens .trail (c.advance 1)
        else .fail (.unterminatedNodeType name.text name.offset)
      if name.text = targetedNodeType ∧ startsWith isQuote inside.rest then
        match literal? inside .target with
        | some (token, next) => close [name, token] next.skipBlank
        | none => .fail (.unterminatedLiteral inside.offset)
      else close [name] inside := by
  unfold nodeTypeMove
  simp only
  split
  · cases literal? (paren.advance 1).skipBlank .target with
    | none => rfl
    | some p =>
      simp only
      split
      · rename_i h
        rw [h]
        rfl
      · rename_i h
        rw [startsWith_eq_false h, if_neg Bool.false_ne_true]
  · split
    · rename_i h
      rw [h]
      rfl
    · rename_i h
      rw [startsWith_eq_false h, if_neg Bool.false_ne_true]

theorem callMove_eq (s : State) (limit : Nat) (c : Cursor) (n : Nat) (paren : Cursor) :
    callMove s limit c n paren =
      let name := c.token .call n
      let inside := (paren.advance 1).skipBlank
      if startsWith (· == ')') inside.rest then
        s.continue [name, inside.token .callEnd 1] .trail (inside.advance 1)
      else s.enter limit [name, inside.token .argument 0] inside (.call name.text name.offset) := by
  unfold callMove
  simp only
  split
  · rename_i h
    rw [h]
    rfl
  · rename_i h
    rw [startsWith_eq_false h, if_neg Bool.false_ne_true]

theorem stepMove_eq (s : State) (limit : Nat) :
    stepMove s limit =
      let c := s.cursor.skipBlank
      let n := stepWordLength c.rest
      let next := (c.advance n).skipBlank
      let word := (c.token .name n).text
      if startsWith (· == ':') next.rest then
        if startsWith (· == ':') (next.rest.drop 1) then
          if (Axis.ofName? word).isSome then s.continue [c.token .axis n] .step (next.advance 2)
          else .fail (.invalidAxis word c.offset)
        else if n = 0 ∨ word = "*" then .fail (.unexpectedCharacter ':' next.offset)
        else s.continue [c.token .nameSpace n] .step (next.advance 1)
      else if startsWith (· == '(') next.rest then
        if n = 0 ∨ word = "*" then .fail (.unexpectedCharacter '(' next.offset)
        else if word ∈ nodeTypes then nodeTypeMove s c n next
        else callMove s limit c n next
      else if n ≠ 0 then s.continue [c.token .name n] .trail next
      else if startsWith (· == '@') next.rest then
        s.continue [next.token .attributeSign 1] .step (next.advance 1)
      else
        match s.last with
        | some t => .fail (.incompleteStep t.text t.offset)
        | none => .fail (.incompleteStep "" next.offset) := by
  unfold stepMove
  simp only
  split
  · rename_i h
    rw [h]
    rfl
  · rename_i rest hne h
    rw [h, startsWith_cons, List.drop_succ_cons, List.drop_zero, startsWith_eq_false hne]
    rfl
  · rename_i h
    rw [h]
    rfl
  · rename_i h1 h2 h3
    rw [startsWith_eq_false h2, startsWith_eq_false h3]
    rfl

theorem trailMove_eq (s : State) (limit : Nat) :
    trailMove s limit =
      let c := s.cursor.skipBlank
      if startsWith (· == '[') c.rest then
        s.enter limit [c.token .predicateStart 1] (c.advance 1) (.predicate c.offset)
      else if startsWith (· == '/') c.rest then
        if startsWith (· == '/') (c.rest.drop 1) then
          s.continue [c.token .descent 2] .step (c.advance 2)
        else s.continue [c.token .slash 1] .step (c.advance 1)
      else s.continue [c.token .pathEnd 0] .operator c := by
  unfold trailMove
  simp only
  split
  · rename_i h
    rw [h]
    rfl
  · rename_i h
    rw [h]
    rfl
  · rename_i hne h
    rw [h, startsWith_cons, List.drop_succ_cons, List.drop_zero, startsWith_eq_false hne]
    rfl
  · rename_i h1 h2 h3
    rw [startsWith_eq_false h1, startsWith_eq_false h3]
    rfl

theorem operandMove_cons {s : State} {found : Char} {rest : List Char}
    (h : s.cursor.skipBlank.rest = found :: rest) :
    operandMove s =
      let c := s.cursor.skipBlank
      if found = '/' then
        if startsWith (· == '/') rest then s.continue [c.token .rootDescent 2] .step (c.advance 2)
        else
          let next := (c.advance 1).skipBlank
          if startsWith isStepStart next.rest then s.continue [c.token .rootSlash 1] .step next
          else s.continue [c.token .rootSlash 1, next.token .pathEnd 0] .operator next
      else if found = '$' then
        let name := c.advance 1
        let n := variableLength false name.rest
        if n = 0 then .fail (.unexpectedCharacter '$' c.offset)
        else s.continue [name.token .variable n] .trail (name.advance n)
      else if isQuote found then
        match literal? c .string with
        | some (token, next) => s.continue [token] .operator next
        | none => .fail (.unterminatedLiteral c.offset)
      else if found.isDigit || (found == '.' && startsWith Char.isDigit rest) then
        let n := numberLength c.rest
        s.continue [c.token .number n] .operator (c.advance n)
      else if isStepStart found then s.continue [] .step c
      else .fail (.unexpectedCharacter found c.offset) := by
  unfold operandMove
  simp only
  generalize s.cursor.skipBlank = c at h ⊢
  split
  · rename_i h'
    rw [h] at h'
    cases h'
  · rename_i h'
    rw [h] at h'
    cases h'
    rfl
  · rename_i hne h'
    rw [h] at h'
    cases h'
    rw [startsWith_eq_false hne]
    rfl
  · rename_i h'
    rw [h] at h'
    cases h'
    rfl
  · rename_i hslash hdollar h'
    rw [h] at h'
    cases h'
    exact ((if_neg hslash).trans (if_neg hdollar)).symm

theorem operandMove_nil {s : State} (h : s.cursor.skipBlank.rest = []) :
    operandMove s = closingMove s s.cursor.skipBlank := by
  unfold operandMove
  simp only [h]

theorem operatorMove_cons {s : State} {found : Char} {rest : List Char}
    (h : s.cursor.skipBlank.rest = found :: rest) :
    operatorMove s =
      let c := s.cursor.skipBlank
      if isCloser found && !s.enclosures.isEmpty then closingMove s c
      else
        let n := operatorLength c.rest
        if n = 0 then .fail (.unexpectedCharacter found c.offset)
        else s.continue [c.token .operator n] .operand (c.advance n) := by
  unfold operatorMove
  simp only
  generalize s.cursor.skipBlank = c at h ⊢
  split
  · rename_i h'
    rw [h] at h'
    cases h'
  · rename_i h'
    rw [h] at h'
    cases h'
    rfl

theorem operatorMove_nil {s : State} (h : s.cursor.skipBlank.rest = []) :
    operatorMove s = closingMove s s.cursor.skipBlank := by
  unfold operatorMove
  simp only [h]

/-- Where something is open, the move at a closing bracket or a comma is the closing one. -/
theorem operatorMove_closer {s : State} (h : startsWith isCloser s.cursor.skipBlank.rest)
    (hs : s.enclosures ≠ []) : operatorMove s = closingMove s s.cursor.skipBlank := by
  obtain ⟨found, rest, hc⟩ := List.exists_cons_of_length_pos (length_pos_of_startsWith h)
  rw [hc, startsWith_cons] at h
  rw [operatorMove_cons hc]
  simp only [h, Bool.true_and]
  rw [if_pos (by simpa using hs)]

theorem closingMove_predicate {s : State} {c : Cursor} {o : Nat} {es : List Enclosure}
    (h : s.enclosures = .predicate o :: es) :
    closingMove s c =
      if startsWith (· == ']') c.rest then
        s.emit [c.token .predicateEnd 1] .trail (c.advance 1) es
      else .fail (.unterminatedPredicate o) := by
  unfold closingMove
  rw [h]
  simp only
  split
  · rename_i hc
    rw [hc]
    rfl
  · rename_i hc
    rw [startsWith_eq_false hc, if_neg Bool.false_ne_true]

theorem closingMove_call {s : State} {c : Cursor} {f : String} {o : Nat} {es : List Enclosure}
    {found : Char} {rest : List Char} (h : s.enclosures = .call f o :: es)
    (hc : c.rest = found :: rest) :
    closingMove s c =
      if found = ')' then s.emit [c.token .callEnd 1] .trail (c.advance 1) es
      else if found = ',' then s.continue [c.token .argument 1] .operand (c.advance 1)
      else .fail (.unexpectedCharacter found c.offset) := by
  unfold closingMove
  rw [h]
  simp only
  split
  · rename_i hc'
    rw [hc] at hc'
    cases hc'
  · rename_i hc'
    rw [hc] at hc'
    cases hc'
    rfl
  · rename_i hc'
    rw [hc] at hc'
    cases hc'
    rfl
  · rename_i hparen hcomma hc'
    rw [hc] at hc'
    cases hc'
    rw [if_neg hparen, if_neg hcomma]

/-- No operand begins with a character that ends an enclosure. -/
theorem operandMove_closer {s : State} (h : startsWith isCloser s.cursor.skipBlank.rest) :
    ∃ e, operandMove s = .fail e := by
  cases hc : s.cursor.skipBlank.rest with
  | nil =>
    rw [hc] at h
    exact absurd h Bool.false_ne_true
  | cons found rest =>
    rw [hc, startsWith_cons] at h
    have hfound : (found = ',' ∨ found = ')') ∨ found = ']' := by simpa [isCloser] using h
    rw [operandMove_cons hc]
    rcases hfound with (rfl | rfl) | rfl <;> exact ⟨_, rfl⟩

end Lexer
end XPath
