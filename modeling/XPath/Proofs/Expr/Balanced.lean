import Mathlib.Logic.Relation
import XPath.Proofs.Expr.Grammar
import XPath.Proofs.Token.Words

/-!
# Brackets in what is read

Calls and predicates enclose tokens.  What is read of an expression encloses nothing by halves, so
whoever goes through tokens and counts the enclosures that are open passes over it.

* `Token.depthBehind`: how many enclosures are open behind a token;
* `Span`, `Balanced`: tokens that close what they open, with few kinds of them outside of it;
* `Balanced.scan`: a function that counts the open enclosures passes over such tokens;
* `Passes`, `Derives.passes`: whatever is read consists of such tokens;
* `Cuts`, `Derives.cut`, `Derives.alone`: what is read in front of other tokens is read on its own.
-/

namespace XPath

/-! ### Enclosures -/

/-- Whether something is enclosed behind a token of the kind. -/
def Token.Kind.opens : Token.Kind → Bool
  | .call | .predicateStart => true
  | _ => false

/-- Whether something is enclosed in front of a token of the kind. -/
def Token.Kind.closes : Token.Kind → Bool
  | .callEnd | .predicateEnd => true
  | _ => false

theorem Token.Kind.opens_eq_false {k : Token.Kind} (h : k.closes) : k.opens = false := by
  unfold closes at h
  split at h
  · rfl
  · rfl
  · exact absurd h Bool.false_ne_true

theorem Token.Kind.closes_eq_false {k : Token.Kind} (h : k.opens) : k.closes = false := by
  cases hk : k.closes with
  | false => rfl
  | true =>
    rw [opens_eq_false hk] at h
    exact absurd h Bool.false_ne_true

/-- How many enclosures are open behind a token. -/
def Token.depthBehind (depth : Nat) (t : Token) : Nat :=
  if t.kind.opens then depth + 1 else if t.kind.closes then depth - 1 else depth

theorem Token.depthBehind_of_opens {t : Token} (h : t.kind.opens) (depth : Nat) :
    t.depthBehind depth = depth + 1 := by
  rw [depthBehind, if_pos h]

theorem Token.depthBehind_of_closes {t : Token} (h : t.kind.closes) (depth : Nat) :
    t.depthBehind (depth + 1) = depth := by
  rw [depthBehind, Kind.opens_eq_false h, if_neg Bool.false_ne_true, if_pos h, Nat.add_sub_cancel]

theorem Token.depthBehind_of_flat {t : Token} (h : t.kind.opens = false ∧ t.kind.closes = false)
    (depth : Nat) : t.depthBehind depth = depth := by
  rw [depthBehind, h.1, h.2, if_neg Bool.false_ne_true, if_neg Bool.false_ne_true]

namespace Parser

/-- What is read, by the kinds of tokens that may stand in it outside of enclosures. -/
inductive Span
  | operand
  | expression
  | arguments

def Span.admits : Span → Token.Kind → Bool
  | .operand, .operator | .operand, .argument | .expression, .argument => false
  | _, k => !k.opens && !k.closes

/-- Tokens that close what they open, where only some kinds of tokens stand outside of it. -/
inductive Balanced : Span → List Token → Prop
  | nil {span} : Balanced span []
  | flat {span t ts} (admitted : span.admits t.kind) (more : Balanced span ts) :
    Balanced span (t :: ts)
  | enclosed {span t xs u ys} (opening : t.kind.opens) (inside : Balanced .arguments xs)
    (closing : u.kind.closes) (more : Balanced span ys) : Balanced span (t :: (xs ++ u :: ys))

namespace Span

theorem flat_of_admits {span : Span} {k : Token.Kind} (h : span.admits k) :
    k.opens = false ∧ k.closes = false := by
  unfold admits at h
  split at h
  · exact absurd h Bool.false_ne_true
  · exact absurd h Bool.false_ne_true
  · exact absurd h Bool.false_ne_true
  · simpa using h

theorem admits_arguments {span : Span} {k : Token.Kind} (h : span.admits k) :
    Span.arguments.admits k := by
  obtain ⟨hopens, hcloses⟩ := flat_of_admits h
  simp [admits, hopens, hcloses]

theorem admits_expression {k : Token.Kind} (h : Span.operand.admits k) :
    Span.expression.admits k := by
  cases k with
  | operator => rfl
  | argument => exact absurd h Bool.false_ne_true
  | _ => exact h

end Span

namespace Balanced

variable {span : Span} {xs ys : List Token}

theorem append (h : Balanced span xs) (hys : Balanced span ys) : Balanced span (xs ++ ys) := by
  induction h with
  | nil => exact hys
  | flat admitted more ih => exact .flat admitted (ih hys)
  | enclosed opening inside closing more ihInside ih =>
    simpa using Balanced.enclosed opening inside closing (ih hys)

theorem mono {wide : Span} (h : Balanced span xs)
    (hs : ∀ k, span.admits k → wide.admits k) : Balanced wide xs := by
  induction h with
  | nil => exact .nil
  | flat admitted more ih => exact .flat (hs _ admitted) (ih hs)
  | enclosed opening inside closing more ihInside ih =>
    exact .enclosed opening inside closing (ih hs)

theorem arguments (h : Balanced span xs) : Balanced .arguments xs :=
  h.mono fun _ => Span.admits_arguments

theorem expression (h : Balanced .operand xs) : Balanced .expression xs :=
  h.mono fun _ => Span.admits_expression

/-- A function that counts the open enclosures, and treats outside of them only the tokens that
close one and those of a special kind in another way, passes over tokens that close what they open.
-/
theorem scan {α : Type} {f : Nat → List Token → α} {g : Token → α → α} {special : Token.Kind}
    (hf : ∀ depth t ts, (depth = 0 → t.kind.closes = false ∧ t.kind ≠ special) →
      f depth (t :: ts) = g t (f (t.depthBehind depth) ts))
    (hspecial : special.opens = false) (h : Balanced span xs) :
    ∀ us depth, (depth = 0 → span.admits special = false) →
      f depth (xs ++ us) = xs.foldr g (f depth us) := by
  induction h with
  | nil => exact fun us depth _ => rfl
  | @flat span t ts admitted more ih =>
    intro us depth hd
    have hflat := Span.flat_of_admits admitted
    rw [List.cons_append, hf, Token.depthBehind_of_flat hflat, ih us depth hd, List.foldr_cons]
    intro h0
    refine ⟨hflat.2, fun hk => ?_⟩
    rw [hk, hd h0] at admitted
    exact absurd admitted Bool.false_ne_true
  | @enclosed span t xs u ys opening inside closing more ihInside ih =>
    intro us depth hd
    have hfirst : t.kind.closes = false ∧ t.kind ≠ special := by
      refine ⟨Token.Kind.closes_eq_false opening, fun hk => ?_⟩
      rw [hk, hspecial] at opening
      exact absurd opening Bool.false_ne_true
    rw [List.cons_append, hf _ _ _ fun _ => hfirst, Token.depthBehind_of_opens opening,
      List.append_assoc, List.cons_append, ihInside _ _ fun h0 => absurd h0 depth.succ_ne_zero,
      hf _ _ _ fun h0 => absurd h0 depth.succ_ne_zero, Token.depthBehind_of_closes closing,
      ih us depth hd, List.foldr_cons, List.foldr_append, List.foldr_cons]

end Balanced

/-! ### Parts of what is read in front of other tokens -/

theorem notNext_nil (p : Token → Prop) : NotNext p [] :=
  fun _ ht => absurd ht (Option.not_mem_none _)

theorem NotNext.cut {p : Token → Prop} {ys zs : List Token} (h : NotNext p (ys ++ zs)) :
    NotNext p ys := by
  cases ys with
  | nil => exact notNext_nil p
  | cons y ys => exact h

/-- What holds between tokens and those that are left of them holds as well without the last of
them. -/
def Cuts (R : List Token → List Token → Prop) (ts us : List Token) : Prop :=
  ∀ ys zs, us = ys ++ zs → ∃ xs, ts = xs ++ zs ∧ R xs ys

section Cuts

variable {R S : List Token → List Token → Prop} {t : Token} {ts us vs : List Token}

theorem cuts_self (hS : ∀ ys zs, us = ys ++ zs → S ys ys) : Cuts S us us :=
  fun ys zs hus => ⟨ys, hus, hS ys zs hus⟩

theorem cuts_token (t : Token) (hS : ∀ ys, S (t :: ys) ys) : Cuts S (t :: us) us :=
  fun ys _ hus => ⟨t :: ys, congrArg _ hus, hS ys⟩

theorem Cuts.mono (h : Cuts R ts us) (hRS : ∀ xs ys, R xs ys → S xs ys) : Cuts S ts us := by
  intro ys zs hus
  obtain ⟨xs, hts, hR⟩ := h ys zs hus
  exact ⟨xs, hts, hRS xs ys hR⟩

/-- From the back: what is left of the first reading is cut as the second demands. -/
theorem Cuts.comp (h : Cuts R ts us) (h' : Cuts S us vs) : Cuts (Relation.Comp R S) ts vs := by
  intro ys zs hvs
  obtain ⟨mid, hus, hS⟩ := h' ys zs hvs
  obtain ⟨xs, hts, hR⟩ := h mid zs hus
  exact ⟨xs, hts, mid, hR, hS⟩

theorem Cuts.cons (t : Token) (h : Cuts R ts us) :
    Cuts (fun xs ys => ∃ ws, xs = t :: ws ∧ R ws ys) (t :: ts) us := by
  intro ys zs hus
  obtain ⟨xs, hts, hR⟩ := h ys zs hus
  exact ⟨t :: xs, congrArg _ hts, xs, rfl, hR⟩

/-- One more token in front. -/
theorem Cuts.behind (t : Token) (h : Cuts R ts us) (hS : ∀ xs ys, R xs ys → S (t :: xs) ys) :
    Cuts S (t :: ts) us := by
  refine (h.cons t).mono ?_
  rintro _ ys ⟨xs, rfl, hR⟩
  exact hS xs ys hR

end Cuts

theorem WrittenAxis.cut {explicit : Option Axis} {ts us : List Token}
    (h : WrittenAxis explicit ts us) : Cuts (WrittenAxis explicit) ts us := by
  cases h with
  | axis kind found => exact cuts_token _ fun ys => .axis kind found
  | attributeSign kind => exact cuts_token _ fun ys => .attributeSign kind
  | nothing => exact cuts_self fun _ _ _ => .nothing

theorem WrittenTest.cut {explicit : Option Axis} {a : Axis} {test : NodeTest} {ts us : List Token}
    (h : WrittenTest explicit a test ts us) : Cuts (WrittenTest explicit a test) ts us := by
  cases h with
  | name kind head => exact cuts_token _ fun ys => .name kind head
  | nameSpace kind kind' =>
    exact fun ys zs hus => ⟨_ :: _ :: ys, by simp [hus], .nameSpace kind kind'⟩
  | nodeType kind plain => exact cuts_token _ fun ys => .nodeType kind plain
  | instruction kind text next =>
    exact fun ys zs hus => ⟨_ :: ys, congrArg _ hus, .instruction kind text (hus ▸ next).cut⟩
  | target kind text kind' =>
    exact fun ys zs hus => ⟨_ :: _ :: ys, by simp [hus], .target kind text kind'⟩

theorem StepHead.cut {a : Axis} {test : NodeTest} {ts us : List Token}
    (h : StepHead a test ts us) : Cuts (StepHead a test) ts us := by
  obtain ⟨explicit, mid, haxis, htest⟩ := h
  exact (haxis.cut.comp htest.cut).mono fun xs ys ⟨mid, haxis, htest⟩ =>
    ⟨explicit, mid, haxis, htest⟩

/-- What is derived in front of some tokens is derived in front of the first of them alone. -/
theorem Derives.cut {functions : Registry} {p : Phrase} {ts us : List Token}
    (h : Derives functions p ts us) : Cuts (Derives functions p) ts us := by
  induction h with
  | expression left more ihLeft ihMore =>
    exact (ihLeft.comp ihMore).mono fun xs ys ⟨_, left, more⟩ => .expression left more
  | noOperator next => exact cuts_self fun ys zs hus => .noOperator (hus ▸ next).cut
  | operator found right more ihRight ihMore =>
    exact (ihRight.comp ihMore).behind _ fun xs ys ⟨_, right, more⟩ => .operator found right more
  | string kind => exact cuts_token _ fun ys => .string kind
  | number kind value => exact cuts_token _ fun ys => .number kind value
  | variableName kind conditions more ihConditions ihMore =>
    exact (ihConditions.comp ihMore).behind _ fun xs ys ⟨_, conditions, more⟩ =>
      .variableName kind conditions more
  | call kind inside allowed conditions more ihInside ihConditions ihMore =>
    refine (ihInside.comp (ihConditions.comp ihMore)).behind _ ?_
    rintro xs ys ⟨_, inside, _, conditions, more⟩
    exact .call kind inside allowed conditions more
  | prefixedCall kind kind' inside allowed conditions more ihInside ihConditions ihMore =>
    refine ((ihInside.comp (ihConditions.comp ihMore)).cons _).behind _ ?_
    rintro _ ys ⟨xs, rfl, _, inside, _, conditions, more⟩
    exact .prefixedCall kind kind' inside allowed conditions more
  | root kind kind' =>
    exact fun ys zs hus => ⟨_ :: _ :: ys, by simp [hus], .root kind kind'⟩
  | rootSlash kind first more ihFirst ihMore =>
    exact (ihFirst.comp ihMore).behind _ fun xs ys ⟨_, first, more⟩ => .rootSlash kind first more
  | rootDescent kind first more ihFirst ihMore =>
    exact (ihFirst.comp ihMore).behind _ fun xs ys ⟨_, first, more⟩ => .rootDescent kind first more
  | path first more ihFirst ihMore =>
    exact (ihFirst.comp ihMore).mono fun xs ys ⟨_, first, more⟩ => .path first more
  | noArgument kind => exact cuts_token _ fun ys => .noArgument kind
  | argument kind first more ihFirst ihMore =>
    exact (ihFirst.comp ihMore).behind _ fun xs ys ⟨_, first, more⟩ => .argument kind first more
  | noStep kind => exact cuts_token _ fun ys => .noStep kind
  | slash kind first more ihFirst ihMore =>
    exact (ihFirst.comp ihMore).behind _ fun xs ys ⟨_, first, more⟩ => .slash kind first more
  | descent kind first more ihFirst ihMore =>
    exact (ihFirst.comp ihMore).behind _ fun xs ys ⟨_, first, more⟩ => .descent kind first more
  | step head conditions ihConditions =>
    exact (head.cut.comp ihConditions).mono fun xs ys ⟨_, head, conditions⟩ => .step head conditions
  | noPredicate next => exact cuts_self fun ys zs hus => .noPredicate (hus ▸ next).cut
  | predicate kind first kind' more ihFirst ihMore =>
    refine (ihFirst.comp (ihMore.cons _)).behind _ ?_
    rintro ts ys ⟨_, first, us, rfl, more⟩
    exact .predicate kind first kind' more

/-! ### Whatever is read closes what it opens -/

/-- A token stands for the operator that it is written like. -/
theorem operator?_eq_some {t : Token} {op : Operator} :
    operator? t = some op ↔ t.kind = .operator ∧ t.text = op.text := by
  unfold operator?
  split
  · rename_i kind
    constructor
    · intro h
      exact ⟨kind, Lexer.text_of_ofText? h⟩
    · rintro ⟨-, h⟩
      rw [h]
      cases op with
      | comparison op => cases op <;> decide
      | connective op => cases op <;> decide
  · rename_i kind
    simp [kind]

/-- Tokens up to the remaining ones close what they open. -/
def Passes (span : Span) (ts us : List Token) : Prop :=
  ∃ xs, ts = xs ++ us ∧ Balanced span xs

namespace Passes

variable {span : Span} {t u : Token} {k k' : Token.Kind} {ts us vs : List Token}

theorem refl (ts : List Token) : Passes span ts ts :=
  ⟨[], rfl, .nil⟩

theorem trans (h : Passes span ts us) (h' : Passes span us vs) : Passes span ts vs := by
  obtain ⟨xs, rfl, hxs⟩ := h
  obtain ⟨ys, rfl, hys⟩ := h'
  exact ⟨xs ++ ys, (List.append_assoc xs ys vs).symm, hxs.append hys⟩

theorem cons (h : Passes span ts us) (kind : t.kind = k) (hk : span.admits k) :
    Passes span (t :: ts) us := by
  obtain ⟨xs, rfl, hxs⟩ := h
  exact ⟨t :: xs, rfl, .flat (kind ▸ hk) hxs⟩

theorem expression (h : Passes .operand ts us) : Passes .expression ts us :=
  h.imp fun _ hxs => ⟨hxs.1, hxs.2.expression⟩

theorem arguments (h : Passes span ts us) : Passes .arguments ts us :=
  h.imp fun _ hxs => ⟨hxs.1, hxs.2.arguments⟩

theorem enclosed (inside : Passes .arguments ts (u :: us)) (more : Passes span us vs)
    (kind : t.kind = k) (opening : k.opens) (kind' : u.kind = k') (closing : k'.closes) :
    Passes span (t :: ts) vs := by
  obtain ⟨xs, rfl, hxs⟩ := inside
  obtain ⟨ys, rfl, hys⟩ := more
  exact ⟨t :: (xs ++ u :: ys), by simp, .enclosed (kind ▸ opening) hxs (kind' ▸ closing) hys⟩

theorem balanced (h : Passes span ts []) : Balanced span ts := by
  obtain ⟨xs, rfl, hxs⟩ := h
  rwa [List.append_nil]

end Passes

theorem StepHead.passes {a : Axis} {test : NodeTest} {ts us : List Token}
    (h : StepHead a test ts us) : Passes .operand ts us := by
  obtain ⟨explicit, mid, haxis, htest⟩ := h
  have hmid : Passes .operand mid us := by
    cases htest with
    | name kind head => exact (Passes.refl us).cons kind rfl
    | nameSpace kind kind' => exact ((Passes.refl us).cons kind' rfl).cons kind rfl
    | nodeType kind plain => exact (Passes.refl us).cons kind rfl
    | instruction kind text next => exact (Passes.refl us).cons kind rfl
    | target kind text kind' => exact ((Passes.refl us).cons kind' rfl).cons kind rfl
  cases haxis with
  | axis kind found => exact hmid.cons kind rfl
  | attributeSign kind => exact hmid.cons kind rfl
  | nothing => exact hmid

/-- What the tokens of a phrase close: arguments close the call in front of them too. -/
def Phrase.Passes : Phrase → List Token → List Token → Prop
  | .expression _, ts, us | .chain _, ts, us => Parser.Passes .expression ts us
  | .arguments _, ts, us => ∃ u, u.kind = .callEnd ∧ Parser.Passes .arguments ts (u :: us)
  | .operand _, ts, us | .steps _, ts, us | .step _, ts, us | .predicates _, ts, us =>
    Parser.Passes .operand ts us

/-- Whatever is derived closes what it opens. -/
theorem Derives.passes {functions : Registry} {p : Phrase} {ts us : List Token}
    (h : Derives functions p ts us) : p.Passes ts us := by
  induction h with
  | expression left more ihLeft ihMore => exact ihLeft.expression.trans ihMore
  | noOperator next => exact .refl _
  | operator found right more ihRight ihMore =>
    obtain ⟨kind, -⟩ := operator?_eq_some.1 found
    exact (ihRight.expression.trans ihMore).cons kind rfl
  | string kind => exact (Passes.refl _).cons kind rfl
  | number kind value => exact (Passes.refl _).cons kind rfl
  | variableName kind conditions more ihConditions ihMore =>
    exact (ihConditions.trans ihMore).cons kind rfl
  | call kind inside allowed conditions more ihInside ihConditions ihMore =>
    obtain ⟨u, kind', hinside⟩ := ihInside
    exact hinside.enclosed (ihConditions.trans ihMore) kind rfl kind' rfl
  | prefixedCall kind kind' inside allowed conditions more ihInside ihConditions ihMore =>
    obtain ⟨u, kind'', hinside⟩ := ihInside
    exact (hinside.enclosed (ihConditions.trans ihMore) kind' rfl kind'' rfl).cons kind rfl
  | root kind kind' => exact ((Passes.refl _).cons kind' rfl).cons kind rfl
  | rootSlash kind first more ihFirst ihMore => exact (ihFirst.trans ihMore).cons kind rfl
  | rootDescent kind first more ihFirst ihMore => exact (ihFirst.trans ihMore).cons kind rfl
  | path first more ihFirst ihMore => exact ihFirst.trans ihMore
  | noArgument kind => exact ⟨_, kind, .refl _⟩
  | argument kind first more ihFirst ihMore =>
    obtain ⟨u, kind', hmore⟩ := ihMore
    exact ⟨u, kind', (ihFirst.arguments.trans hmore).cons kind rfl⟩
  | noStep kind => exact (Passes.refl _).cons kind rfl
  | slash kind first more ihFirst ihMore => exact (ihFirst.trans ihMore).cons kind rfl
  | descent kind first more ihFirst ihMore => exact (ihFirst.trans ihMore).cons kind rfl
  | step head conditions ihConditions => exact head.passes.trans ihConditions
  | noPredicate next => exact .refl _
  | predicate kind first kind' more ihFirst ihMore =>
    have hfirst : Passes .arguments _ _ := ihFirst.arguments
    exact hfirst.enclosed ihMore kind rfl kind' rfl

/-- What is derived in front of other tokens is derived from its own tokens alone, and they close
what they open. -/
theorem Derives.alone {functions : Registry} {p : Phrase} {ts us : List Token}
    (h : Derives functions p ts us) :
    ∃ xs, ts = xs ++ us ∧ p.Passes xs [] ∧ Derives functions p xs [] := by
  obtain ⟨xs, hts, hderives⟩ := h.cut [] us rfl
  exact ⟨xs, hts, hderives.passes, hderives⟩

/-- An operand alone is an expression. -/
theorem parseTokens_of_operand {functions : Registry} {e : Expr} {ts : List Token}
    (h : Derives functions (.operand e) ts []) : parseTokens functions ts = .ok e :=
  parseTokens_eq_ok.2 (.expression h (.noOperator (notNext_nil _)))

end Parser
end XPath
