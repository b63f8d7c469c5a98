import Mathlib.Data.List.Forall2
import XPath.Builtin
import XPath.Proofs.Expr.Balanced
import XPath.Proofs.Expr.Precedence

/-!
# The levels of an expression

A whole text, each argument and each predicate in it are levels: chains of operators that do not
mix.  In the expression that is read, going through the operators of a level from left to right
gives its operands and operators as they stand in the text.

* `Parser.bodies`, `Parser.pieces`: the levels among tokens, and the pieces of one level;
* `Expr.nested`, `Expr.inOrder`: the levels inside an expression, and the pieces of one level;
* `Level`: tokens and an expression with the same pieces;
* `Parser.level_of_parseTokens`: one level;
* `Parser.Encloses`, `Parser.Derives.encloses`: all levels inside what is read;
* `parse_levels`: the levels of a text.
-/

namespace XPath

/-! ### Levels among tokens -/

namespace Parser

/-- The tokens up to the end of an argument or a predicate, inside which some enclosures are open.
-/
def body : Nat → List Token → List Token
  | _, [] => []
  | depth, t :: ts =>
    if depth = 0 ∧ (t.kind.closes ∨ t.kind = .argument) then []
    else t :: body (t.depthBehind depth) ts

/-- The tokens of every argument and every predicate, in the order in which they begin. -/
def bodies : List Token → List (List Token)
  | [] => []
  | t :: ts =>
    if t.kind = .argument ∨ t.kind = .predicateStart then body 0 ts :: bodies ts
    else bodies ts

/-- Puts a token in front of the first operand. -/
def pushPiece (t : Token) : List (List Token ⊕ Token) → List (List Token ⊕ Token)
  | .inl ts :: rest => .inl (t :: ts) :: rest
  | rest => .inl [t] :: rest

/-- The operands and the operators of a level, inside which some enclosures are open. -/
def pieces : Nat → List Token → List (List Token ⊕ Token)
  | _, [] => [.inl []]
  | depth, t :: ts =>
    if depth = 0 ∧ t.kind = .operator then .inl [] :: .inr t :: pieces 0 ts
    else pushPiece t (pieces (t.depthBehind depth) ts)

end Parser

/-! ### Levels inside an expression -/

mutual

/-- Every argument and every predicate inside an expression, in the order in which they are
written. -/
def Expr.nested (e : Expr) : List Expr :=
  match e with
  | .literal _ | .number _ | .variable _ => []
  | .call _ args => nestedOfAll args
  | .path _ ss => nestedOfSteps ss
  | .filter primary ps ss => primary.nested ++ (nestedOfAll ps ++ nestedOfSteps ss)
  | .compare _ l r => l.nested ++ r.nested
  | .connect _ l r => l.nested ++ r.nested

def nestedOfAll (es : List Expr) : List Expr :=
  match es with
  | [] => []
  | e :: es => e :: (e.nested ++ nestedOfAll es)

def nestedOfStep (s : Step Expr) : List Expr :=
  match s with
  | ⟨_, _, ps⟩ => nestedOfAll ps

def nestedOfSteps (ss : List (Step Expr)) : List Expr :=
  match ss with
  | [] => []
  | s :: ss => nestedOfStep s ++ nestedOfSteps ss

end

/-- The operands and the operators of an expression from left to right. -/
def Expr.inOrder : Expr → List (Expr ⊕ Operator)
  | .compare op l r => l.inOrder ++ .inr (.comparison op) :: r.inOrder
  | .connect op l r => l.inOrder ++ .inr (.connective op) :: r.inOrder
  | e => [.inl e]

/-! ### The same pieces -/

/-- A piece among tokens and the piece of an expression that it stands for. -/
inductive Matches (functions : Registry) : List Token ⊕ Token → Expr ⊕ Operator → Prop
  | operand {ts e} (read : parseTokens functions ts = .ok e) : Matches functions (.inl ts) (.inl e)
  | operator {t op} (kind : t.kind = .operator) (text : t.text = op.text) :
    Matches functions (.inr t) (.inr op)

/-- Tokens stand for an expression, and they have the same pieces in the same order. -/
structure Level (functions : Registry) (ts : List Token) (e : Expr) : Prop where
  read : parseTokens functions ts = .ok e
  inOrder : List.Forall₂ (Matches functions) (Parser.pieces 0 ts) e.inOrder

namespace Parser

section OneLevel

variable {functions : Registry} {ts us xs : List Token} {e : Expr}

/-! ### One level -/

theorem inOrder_apply (op : Operator) (l r : Expr) :
    (op.apply l r).inOrder = l.inOrder ++ ([.inr op] ++ r.inOrder) := by
  cases op <;> rfl

theorem inOrder_of_level (h : e.level = 4) : e.inOrder = [.inl e] := by
  cases e with
  | compare op l r => exact absurd h (Nat.ne_of_lt (Operator.comparison op).level_lt)
  | connect op l r => exact absurd h (Nat.ne_of_lt (Operator.connective op).level_lt)
  | _ => rfl

/-- Grouping operands keeps their order. -/
theorem inOrder_assemble {first : Expr} {ops : List (Operator × Expr)} (hfirst : first.level = 4)
    (hops : ∀ o ∈ ops, o.2.level = 4) :
    (assemble first ops).inOrder = .inl first :: ops.flatMap fun o => [.inr o.1, .inl o.2] := by
  have hpair : ∀ o ∈ ops, [.inr o.1] ++ o.2.inOrder = [Sum.inr o.1, .inl o.2] := by
    intro o ho
    rw [inOrder_of_level (hops o ho)]
    rfl
  rw [assemble_of_append _ inOrder_apply, inOrder_of_level hfirst, List.flatMap_congr hpair]
  rfl

theorem foldr_pushPiece (xs ts : List Token) (rest : List (List Token ⊕ Token)) :
    xs.foldr pushPiece (.inl ts :: rest) = .inl (xs ++ ts) :: rest := by
  induction xs with
  | nil => rfl
  | cons x xs ih => rw [List.foldr_cons, ih]; rfl

/-- A level is not cut inside an operand. -/
theorem Balanced.pieces_append (h : Balanced .operand xs) (us : List Token) :
    pieces 0 (xs ++ us) = xs.foldr pushPiece (pieces 0 us) := by
  have hstep : ∀ depth (t : Token) ts, (depth = 0 → t.kind.closes = false ∧ t.kind ≠ .operator) →
      pieces depth (t :: ts) = pushPiece t (pieces (t.depthBehind depth) ts) := by
    intro depth t ts ht
    rw [pieces, if_neg fun h => (ht h.1).2 h.2]
  exact h.scan hstep rfl us 0 fun _ => rfl

/-- The first operand of a level is cut off where it ends. -/
theorem Derives.pieces_operand (h : Derives functions (.operand e) ts us)
    {rest : List (List Token ⊕ Token)} (hus : pieces 0 us = .inl [] :: rest) :
    ∃ xs, parseTokens functions xs = .ok e ∧ pieces 0 ts = .inl xs :: rest := by
  obtain ⟨xs, rfl, hxs, hderives⟩ := h.alone
  refine ⟨xs, parseTokens_of_operand hderives, ?_⟩
  rw [Balanced.pieces_append hxs.balanced, hus, foldr_pushPiece, List.append_nil]

theorem Derives.pieces_chain {ops : List (Operator × Expr)} :
    ∀ {us}, Derives functions (.chain ops) us [] → ∃ rest, pieces 0 us = .inl [] :: rest ∧
      List.Forall₂ (Matches functions) rest (ops.flatMap fun o => [.inr o.1, .inl o.2]) := by
  induction ops with
  | nil =>
    intro us h
    cases h with
    | noOperator next => exact ⟨[], rfl, .nil⟩
  | cons o ops ih =>
    intro us h
    cases h with
    | @operator t op e ops ts vs _ found right more =>
      obtain ⟨kind, text⟩ := operator?_eq_some.1 found
      obtain ⟨rest, hrest, hmatches⟩ := ih more
      obtain ⟨xs, hread, hxs⟩ := right.pieces_operand hrest
      have hoperand : Matches functions (.inl xs) (.inl e) := .operand hread
      refine ⟨.inr t :: .inl xs :: rest, ?_, .cons (.operator kind text) (.cons hoperand hmatches)⟩
      rw [pieces, if_pos ⟨rfl, kind⟩, hxs]

/-- Tokens that stand for an expression have its pieces. -/
theorem level_of_parseTokens (h : parseTokens functions ts = .ok e) : Level functions ts e := by
  refine ⟨h, ?_⟩
  cases parseTokens_eq_ok.1 h with
  | expression left more =>
    obtain ⟨rest, hrest, hmatches⟩ := more.pieces_chain
    obtain ⟨xs, hread, hxs⟩ := left.pieces_operand hrest
    rw [hxs, inOrder_assemble left.normal.2 fun o ho => (more.normal o ho).2]
    exact .cons (.operand hread) hmatches

end OneLevel

/-! ### All levels inside what is read -/

/-- A token that ends nothing outside of enclosures is inside. -/
theorem body_cons {depth : Nat} {t : Token} {ts : List Token}
    (h : depth = 0 → t.kind.closes = false ∧ t.kind ≠ .argument) :
    body depth (t :: ts) = t :: body (t.depthBehind depth) ts := by
  rw [body, if_neg]
  rintro ⟨h0, hends⟩
  simp [h h0] at hends

/-- An expression is not cut inside. -/
theorem Balanced.body_append {xs : List Token} (h : Balanced .expression xs) (us : List Token) :
    body 0 (xs ++ us) = xs ++ body 0 us := by
  rw [h.scan (fun _ _ _ => body_cons) rfl us 0 fun _ => rfl]
  simp

theorem body_eq_nil {t : Token} {k : Token.Kind} (kind : t.kind = k)
    (hk : k.closes ∨ k = .argument) (ts : List Token) : body 0 (t :: ts) = [] := by
  rw [body, kind, if_pos ⟨rfl, hk⟩]

/-- The levels that begin in front of the remaining tokens stand for the given expressions. -/
def Encloses (functions : Registry) (ts us : List Token) (es : List Expr) : Prop :=
  ∃ bs, bodies ts = bs ++ bodies us ∧
    List.Forall₂ (fun b e => parseTokens functions b = .ok e) bs es

namespace Encloses

variable {functions : Registry} {t : Token} {ts us vs : List Token} {es fs : List Expr}

theorem refl (ts : List Token) : Encloses functions ts ts [] :=
  ⟨[], rfl, .nil⟩

theorem trans (h : Encloses functions ts us es) (h' : Encloses functions us vs fs) :
    Encloses functions ts vs (es ++ fs) := by
  obtain ⟨bs, hbs, hes⟩ := h
  obtain ⟨cs, hcs, hfs⟩ := h'
  exact ⟨bs ++ cs, by rw [hbs, hcs, List.append_assoc], List.rel_append hes hfs⟩

/-- No level begins with a token of another kind. -/
theorem cons {k : Token.Kind} (h : Encloses functions ts us es) (kind : t.kind = k)
    (hk : k ∉ [.argument, .predicateStart]) : Encloses functions (t :: ts) us es := by
  simp only [List.mem_cons, List.not_mem_nil, or_false] at hk
  obtain ⟨bs, hbs, hes⟩ := h
  exact ⟨bs, by rw [bodies, kind, if_neg hk, hbs], hes⟩

/-- A level begins, and it reaches up to where it ends. -/
theorem enclosed {e : Expr} (kind : t.kind = .argument ∨ t.kind = .predicateStart)
    (first : Derives functions (.expression e) ts us) (hus : body 0 us = [])
    (h : Encloses functions ts vs es) : Encloses functions (t :: ts) vs (e :: es) := by
  obtain ⟨bs, hbs, hes⟩ := h
  obtain ⟨xs, rfl, hxs, hderives⟩ := first.alone
  have hbody : body 0 (xs ++ us) = xs := by
    rw [Balanced.body_append hxs.balanced, hus, List.append_nil]
  refine ⟨xs :: bs, ?_, .cons (parseTokens_eq_ok.2 hderives) hes⟩
  rw [bodies, if_pos kind, hbody, hbs, List.cons_append]

end Encloses

def Phrase.nested : Phrase → List Expr
  | .expression e | .operand e => e.nested
  | .chain ops => ops.flatMap fun o => o.2.nested
  | .arguments es | .predicates es => nestedOfAll es
  | .steps ss => nestedOfSteps ss
  | .step s => nestedOfStep s

section Nested

variable {functions : Registry} {ts us : List Token}

theorem nested_apply (op : Operator) (l r : Expr) :
    (op.apply l r).nested = l.nested ++ ([] ++ r.nested) := by
  cases op <;> rfl

theorem nested_narrowed (primary : Expr) (ps : List Expr) (ss : List (Step Expr)) :
    (narrowed primary ps ss).nested = primary.nested ++ (nestedOfAll ps ++ nestedOfSteps ss) := by
  unfold narrowed
  split
  · rename_i h
    simp only [Bool.and_eq_true, List.isEmpty_iff] at h
    rw [h.1, h.2, nestedOfAll, nestedOfSteps, List.append_nil, List.append_nil]
  · rw [Expr.nested]

theorem nested_anyBelow (ss : List (Step Expr)) :
    nestedOfSteps (.anyBelow :: ss) = nestedOfSteps ss :=
  rfl

theorem StepHead.encloses {a : Axis} {test : NodeTest} (h : StepHead a test ts us) :
    Encloses functions ts us [] := by
  obtain ⟨explicit, mid, haxis, htest⟩ := h
  have hmid : Encloses functions mid us [] := by
    cases htest with
    | name kind head => exact (Encloses.refl us).cons kind (by decide)
    | nameSpace kind kind' =>
      exact ((Encloses.refl us).cons kind' (by decide)).cons kind (by decide)
    | nodeType kind plain => exact (Encloses.refl us).cons kind (by decide)
    | instruction kind text next => exact (Encloses.refl us).cons kind (by decide)
    | target kind text kind' =>
      exact ((Encloses.refl us).cons kind' (by decide)).cons kind (by decide)
  cases haxis with
  | axis kind found => exact hmid.cons kind (by decide)
  | attributeSign kind => exact hmid.cons kind (by decide)
  | nothing => exact hmid

/-- The levels inside what is derived stand for the levels inside its expressions. -/
theorem Derives.encloses {ph : Phrase} (h : Derives functions ph ts us) :
    Encloses functions ts us ph.nested := by
  induction h with
  | @expression first ops _ _ _ left more ihLeft ihMore =>
    have hnested : (assemble first ops).nested
        = first.nested ++ ops.flatMap fun o => [] ++ o.2.nested :=
      assemble_of_append _ nested_apply first ops
    rw [Phrase.nested, hnested]
    exact ihLeft.trans ihMore
  | noOperator next => exact .refl _
  | operator found right more ihRight ihMore =>
    obtain ⟨kind, -⟩ := operator?_eq_some.1 found
    exact (ihRight.trans ihMore).cons kind (by decide)
  | string kind => exact (Encloses.refl _).cons kind (by decide)
  | number kind value => exact (Encloses.refl _).cons kind (by decide)
  | variableName kind conditions more ihConditions ihMore =>
    rw [Phrase.nested, nested_narrowed, Expr.nested, List.nil_append]
    exact (ihConditions.trans ihMore).cons kind (by decide)
  | call kind inside allowed conditions more ihInside ihConditions ihMore =>
    rw [Phrase.nested, nested_narrowed, Expr.nested]
    exact (ihInside.trans (ihConditions.trans ihMore)).cons kind (by decide)
  | prefixedCall kind kind' inside allowed conditions more ihInside ihConditions ihMore =>
    rw [Phrase.nested, nested_narrowed, Expr.nested]
    have hcall := (ihInside.trans (ihConditions.trans ihMore)).cons kind' (by decide)
    exact hcall.cons kind (by decide)
  | root kind kind' =>
    rw [Phrase.nested, Expr.nested, nestedOfSteps]
    exact ((Encloses.refl _).cons kind' (by decide)).cons kind (by decide)
  | rootSlash kind first more ihFirst ihMore =>
    rw [Phrase.nested, Expr.nested, nestedOfSteps]
    exact (ihFirst.trans ihMore).cons kind (by decide)
  | rootDescent kind first more ihFirst ihMore =>
    rw [Phrase.nested, Expr.nested, nested_anyBelow, nestedOfSteps]
    exact (ihFirst.trans ihMore).cons kind (by decide)
  | path first more ihFirst ihMore =>
    rw [Phrase.nested, Expr.nested, nestedOfSteps]
    exact ihFirst.trans ihMore
  | noArgument kind =>
    rw [Phrase.nested, nestedOfAll]
    exact (Encloses.refl _).cons kind (by decide)
  | @argument t e es ts us vs kind first more ihFirst ihMore =>
    -- what follows an argument begins the next one or ends the call
    have hends : body 0 us = [] := by
      cases more with
      | noArgument kind' => exact body_eq_nil kind' (.inl rfl) _
      | argument kind' => exact body_eq_nil kind' (.inr rfl) _
    rw [Phrase.nested, nestedOfAll]
    exact .enclosed (.inl kind) first hends (ihFirst.trans ihMore)
  | noStep kind =>
    rw [Phrase.nested, nestedOfSteps]
    exact (Encloses.refl _).cons kind (by decide)
  | slash kind first more ihFirst ihMore =>
    rw [Phrase.nested, nestedOfSteps]
    exact (ihFirst.trans ihMore).cons kind (by decide)
  | descent kind first more ihFirst ihMore =>
    rw [Phrase.nested, nested_anyBelow, nestedOfSteps]
    exact (ihFirst.trans ihMore).cons kind (by decide)
  | step head conditions ihConditions =>
    rw [Phrase.nested, nestedOfStep]
    exact head.encloses.trans ihConditions
  | noPredicate next =>
    rw [Phrase.nested, nestedOfAll]
    exact .refl _
  | predicate kind first kind' more ihFirst ihMore =>
    have hmore := ihMore.cons kind' (by decide)
    rw [Phrase.nested, nestedOfAll]
    exact .enclosed (.inr kind) first (body_eq_nil kind' (.inl rfl) _) (ihFirst.trans hmore)

end Nested

end Parser

/-! ### Whole texts -/

/-- In a text that is parsed, the text itself, every argument and every predicate give the same
operands and operators in the same order as the expressions that they stand for, and at every node
the operators are ranked. -/
theorem parse_levels {functions : Registry} {limit : Nat} {s : String} {e : Expr}
    (h : parse functions limit s = .ok e) :
    (∃ ts, tokenize limit s = .ok ts ∧
      List.Forall₂ (Level functions) (ts :: Parser.bodies ts) (e :: e.nested)) ∧ e.Normal := by
  obtain ⟨ts, hts, hderives⟩ := parse_eq_ok.1 h
  refine ⟨⟨ts, hts, ?_⟩, hderives.normal⟩
  obtain ⟨bs, hbs, hnested⟩ := hderives.encloses
  rw [Parser.bodies, List.append_nil] at hbs
  rw [hbs]
  have hlevels : List.Forall₂ (fun b f => parseTokens functions b = .ok f) (ts :: bs)
      (e :: e.nested) :=
    .cons (parseTokens_eq_ok.2 hderives) hnested
  exact hlevels.imp fun _ _ => Parser.level_of_parseTokens

/-- Three levels: the text, an argument in it, and a predicate in the argument. -/
theorem parse_levels_mixed :
    ∃ e, parse .standard 2 "a or b = c < count(d[e != f or g])" = .ok e ∧
      (∃ ts, tokenize 2 "a or b = c < count(d[e != f or g])" = .ok ts ∧
        (ts :: Parser.bodies ts).map (fun us => (Parser.pieces 0 us).length) = [7, 1, 5] ∧
        List.Forall₂ (Level .standard) (ts :: Parser.bodies ts) (e :: e.nested)) ∧ e.Normal := by
  have hparsed : (parse .standard 2 "a or b = c < count(d[e != f or g])").isOk := by decide +kernel
  have hpieces : (tokenize 2 "a or b = c < count(d[e != f or g])").map (fun ts =>
      (ts :: Parser.bodies ts).map fun us => (Parser.pieces 0 us).length) = .ok [7, 1, 5] := by
    decide +kernel
  obtain ⟨e, he⟩ := exists_eq_ok_of_isOk hparsed
  obtain ⟨⟨ts, hts, hlevels⟩, hnormal⟩ := parse_levels he
  rw [hts] at hpieces
  exact ⟨e, he, ⟨ts, hts, Except.ok.inj hpieces, hlevels⟩, hnormal⟩

end XPath
