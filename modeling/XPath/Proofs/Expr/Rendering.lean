import Mathlib.Logic.Relation
import XPath.Builtin
import XPath.Proofs.Expr.Grammar
import XPath.Proofs.Token.Rendering

/-!
# A text and its rendering

The tokens of a text, written down again, make a text with the same tokens at other places.  The
grammar does not look at places, so both texts stand for the same expression.

* `Stable`, `Derives.stable`: what is derived from tokens is derived from the same tokens at other
  places;
* `tokenize_renderTokens`, `renderTokens_stable`: the rendering of a text;
* `renderTokens_roundTrip`: what it is parsed to.
-/

namespace XPath

/-! ### The same tokens at other places -/

/-- The two lists have the same tokens, up to their places. -/
def SameTokens (ts us : List Token) : Prop :=
  ts.map Token.unplaced = us.map Token.unplaced

/-- The two lists begin with the same token, up to its place, or both are empty. -/
def SameHead (ts us : List Token) : Prop :=
  ts.head?.map Token.unplaced = us.head?.map Token.unplaced

theorem SameHead.cons_left {t : Token} {ts us : List Token} (h : SameHead (t :: ts) us) :
    ∃ t' ts', us = t' :: ts' ∧ t'.kind = t.kind ∧ t'.text = t.text := by
  cases us with
  | nil => simp [SameHead] at h
  | cons u us =>
    simp only [SameHead, List.head?_cons, Option.map_some, Option.some.injEq, Token.unplaced,
      Prod.mk.injEq] at h
    exact ⟨u, us, rfl, h.1.symm, h.2.symm⟩

theorem SameHead.nil_left {us : List Token} (h : SameHead [] us) : us = [] := by
  cases us with
  | nil => rfl
  | cons u us => simp [SameHead] at h

namespace SameTokens

variable {t u : Token} {ts us : List Token}

theorem nil_left (h : SameTokens [] us) : us = [] :=
  List.map_eq_nil_iff.1 (Eq.symm h)

theorem cons_left (h : SameTokens (t :: ts) us) :
    ∃ t' ts', us = t' :: ts' ∧ t'.kind = t.kind ∧ t'.text = t.text ∧ SameTokens ts ts' := by
  obtain ⟨t', ts', rfl, ht, hts⟩ := List.map_eq_cons_iff.1 (Eq.symm h)
  simp only [Token.unplaced, Prod.mk.injEq] at ht
  exact ⟨t', ts', rfl, ht.1, ht.2, Eq.symm hts⟩

theorem head (h : SameTokens ts us) : SameHead ts us := by
  unfold SameHead
  rw [← List.head?_map, ← List.head?_map, h]

end SameTokens

namespace Parser

theorem NotNext.replace {p : Token → Prop} {ts us : List Token} (h : NotNext p ts)
    (hp : ∀ t u : Token, u.kind = t.kind → u.text = t.text → p u → p t) (hs : SameHead ts us) :
    NotNext p us := by
  intro u hu hpu
  cases ts with
  | nil =>
    rw [hs.nil_left] at hu
    simp at hu
  | cons t ts =>
    obtain ⟨t', ts', rfl, hkind, htext⟩ := hs.cons_left
    have hu : t' = u := by simpa using hu
    subst hu
    exact h t rfl (hp t t' hkind htext hpu)

theorem operator?_congr {t u : Token} (hkind : u.kind = t.kind) (htext : u.text = t.text) :
    operator? u = operator? t := by
  rw [operator?, operator?, hkind, htext]

/-- What holds between tokens and those that are left of them holds at other places too. -/
def Stable (R : List Token → List Token → Prop) (ts mid : List Token) : Prop :=
  ∀ us, SameTokens ts us → ∃ vs, SameTokens mid vs ∧ R us vs

/-- The tokens begin with the given one, up to its place, and the others are left. -/
def Follows (t : Token) (us vs : List Token) : Prop :=
  ∃ u, us = u :: vs ∧ u.kind = t.kind ∧ u.text = t.text

section Stable

variable {R S : List Token → List Token → Prop} {t : Token} {ts mid last : List Token}

theorem Stable.mono (h : Stable R ts mid) (hRS : ∀ us vs, R us vs → S us vs) : Stable S ts mid := by
  intro us hs
  obtain ⟨vs, hs, hR⟩ := h us hs
  exact ⟨vs, hs, hRS us vs hR⟩

theorem Stable.comp (h : Stable R ts mid) (h' : Stable S mid last) :
    Stable (Relation.Comp R S) ts last := by
  intro us hs
  obtain ⟨vs, hs, hR⟩ := h us hs
  obtain ⟨ws, hs, hS⟩ := h' vs hs
  exact ⟨ws, hs, vs, hR, hS⟩

theorem stable_follows (t : Token) (ts : List Token) : Stable (Follows t) (t :: ts) ts := by
  intro us hs
  obtain ⟨u, vs, rfl, hkind, htext, hs⟩ := hs.cons_left
  exact ⟨vs, hs, u, rfl, hkind, htext⟩

/-- One token alone. -/
theorem stable_token
    (hS : ∀ u us, u.kind = t.kind → u.text = t.text → S (u :: us) us) : Stable S (t :: ts) ts := by
  refine (stable_follows t ts).mono ?_
  rintro _ us ⟨u, rfl, hkind, htext⟩
  exact hS u us hkind htext

/-- One more token in front. -/
theorem Stable.behind (h : Stable R ts mid)
    (hS : ∀ u us vs, u.kind = t.kind → u.text = t.text → R us vs → S (u :: us) vs) :
    Stable S (t :: ts) mid := by
  refine ((stable_follows t ts).comp h).mono ?_
  rintro _ vs ⟨us, ⟨u, rfl, hkind, htext⟩, hR⟩
  exact hS u us vs hkind htext hR

theorem NotNext.stable {p : Token → Prop} (h : NotNext p ts)
    (hp : ∀ t u : Token, u.kind = t.kind → u.text = t.text → p u → p t)
    (hS : ∀ us, NotNext p us → S us us) : Stable S ts ts :=
  fun us hs => ⟨us, hs, hS us (h.replace hp hs.head)⟩

end Stable

theorem WrittenAxis.stable {explicit : Option Axis} {ts mid : List Token}
    (h : WrittenAxis explicit ts mid) : Stable (WrittenAxis explicit) ts mid := by
  cases h with
  | axis kind found =>
    exact stable_token fun u us hkind htext => .axis (hkind.trans kind) (htext ▸ found)
  | attributeSign kind => exact stable_token fun u us hkind _ => .attributeSign (hkind.trans kind)
  | nothing => exact fun us hs => ⟨us, hs, .nothing⟩

theorem WrittenTest.stable {explicit : Option Axis} {a : Axis} {test : NodeTest}
    {ts mid : List Token} (h : WrittenTest explicit a test ts mid) :
    Stable (WrittenTest explicit a test) ts mid := by
  cases h with
  | name kind head =>
    exact stable_token fun u us hkind htext => .name (hkind.trans kind) (htext ▸ head)
  | nameSpace kind kind' =>
    refine (stable_follows _ _).behind ?_
    rintro t' _ us hkind htext ⟨u', rfl, hkind', htext'⟩
    rw [← htext, ← htext']
    exact .nameSpace (hkind.trans kind) (hkind'.trans kind')
  | nodeType kind plain =>
    exact stable_token fun u us hkind htext => .nodeType (hkind.trans kind) (htext ▸ plain)
  | instruction kind text next =>
    have hnext := next.stable (S := fun us vs => us = vs ∧ NotNext (·.kind = .target) us)
      (fun t u hk _ hu => hk ▸ hu) fun us h => ⟨rfl, h⟩
    refine hnext.behind ?_
    rintro t' us _ hkind htext ⟨rfl, next⟩
    exact .instruction (hkind.trans kind) (htext.trans text) next
  | target kind text kind' =>
    refine (stable_follows _ _).behind ?_
    rintro t' _ us hkind htext ⟨u', rfl, hkind', htext'⟩
    rw [← htext']
    exact .target (hkind.trans kind) (htext.trans text) (hkind'.trans kind')

theorem StepHead.stable {a : Axis} {test : NodeTest} {ts mid : List Token}
    (h : StepHead a test ts mid) : Stable (StepHead a test) ts mid := by
  obtain ⟨explicit, mid, haxis, htest⟩ := h
  refine (haxis.stable.comp htest.stable).mono ?_
  rintro us ws ⟨vs, haxis, htest⟩
  exact ⟨explicit, vs, haxis, htest⟩

section Calls

variable {functions : Registry} {t u : Token} {es ps : List Expr} {ss : List (Step Expr)}
  {ts us vs ws : List Token}

/-- What stands behind the name of a function, whose name is allowed. -/
theorem stable_call (kind : t.kind = .call) (allowed : functions.check t.text es.length = .ok ())
    (inside : Stable (Derives functions (.arguments es)) ts us)
    (conditions : Stable (Derives functions (.predicates ps)) us vs)
    (more : Stable (Derives functions (.steps ss)) vs ws) :
    Stable (Derives functions (.operand (narrowed (.call t.text es) ps ss))) (t :: ts) ws := by
  refine (inside.comp (conditions.comp more)).behind ?_
  rintro t' us' ws' hkind htext ⟨_, inside, _, conditions, more⟩
  rw [← htext] at allowed ⊢
  exact .call (hkind.trans kind) inside allowed conditions more

theorem stable_prefixedCall (kind : t.kind = .nameSpace) (kind' : u.kind = .call)
    (allowed : functions.check (t.text ++ ":" ++ u.text) es.length = .ok ())
    (inside : Stable (Derives functions (.arguments es)) ts us)
    (conditions : Stable (Derives functions (.predicates ps)) us vs)
    (more : Stable (Derives functions (.steps ss)) vs ws) :
    Stable (Derives functions (.operand (narrowed (.call (t.text ++ ":" ++ u.text) es) ps ss)))
      (t :: u :: ts) ws := by
  refine ((stable_follows u ts).comp (inside.comp (conditions.comp more))).behind ?_
  rintro t' _ ws' hkind htext ⟨us', ⟨u', rfl, hkind', htext'⟩, _, inside, _, conditions, more⟩
  rw [← htext, ← htext'] at allowed ⊢
  exact .prefixedCall (hkind.trans kind) (hkind'.trans kind') inside allowed conditions more

end Calls

/-- What is derived from tokens is derived from the same tokens at other places. -/
theorem Derives.stable {functions : Registry} {p : Phrase} {ts mid : List Token}
    (h : Derives functions p ts mid) : Stable (Derives functions p) ts mid := by
  induction h with
  | expression left more ihLeft ihMore =>
    exact (ihLeft.comp ihMore).mono fun us vs ⟨_, left, more⟩ => .expression left more
  | noOperator next =>
    exact next.stable (fun t u hk ht hu => operator?_congr hk ht ▸ hu) fun us => .noOperator
  | operator found right more ihRight ihMore =>
    exact (ihRight.comp ihMore).behind fun u us vs hkind htext ⟨_, right, more⟩ =>
      .operator ((operator?_congr hkind htext).trans found) right more
  | string kind => exact stable_token fun u us hkind htext => htext ▸ .string (hkind.trans kind)
  | number kind value =>
    exact stable_token fun u us hkind htext => .number (hkind.trans kind) (htext ▸ value)
  | variableName kind conditions more ihConditions ihMore =>
    exact (ihConditions.comp ihMore).behind fun u us vs hkind htext ⟨_, conditions, more⟩ =>
      htext ▸ .variableName (hkind.trans kind) conditions more
  | call kind inside allowed conditions more ihInside ihConditions ihMore =>
    exact stable_call kind allowed ihInside ihConditions ihMore
  | prefixedCall kind kind' inside allowed conditions more ihInside ihConditions ihMore =>
    exact stable_prefixedCall kind kind' allowed ihInside ihConditions ihMore
  | root kind kind' =>
    exact (stable_follows _ _).behind fun t us vs hkind _ ⟨u, hus, hkind', _⟩ =>
      hus ▸ .root (hkind.trans kind) (hkind'.trans kind')
  | rootSlash kind first more ihFirst ihMore =>
    exact (ihFirst.comp ihMore).behind fun u us vs hkind _ ⟨_, first, more⟩ =>
      .rootSlash (hkind.trans kind) first more
  | rootDescent kind first more ihFirst ihMore =>
    exact (ihFirst.comp ihMore).behind fun u us vs hkind _ ⟨_, first, more⟩ =>
      .rootDescent (hkind.trans kind) first more
  | path first more ihFirst ihMore =>
    exact (ihFirst.comp ihMore).mono fun us vs ⟨_, first, more⟩ => .path first more
  | noArgument kind => exact stable_token fun u us hkind _ => .noArgument (hkind.trans kind)
  | argument kind first more ihFirst ihMore =>
    exact (ihFirst.comp ihMore).behind fun u us vs hkind _ ⟨_, first, more⟩ =>
      .argument (hkind.trans kind) first more
  | noStep kind => exact stable_token fun u us hkind _ => .noStep (hkind.trans kind)
  | slash kind first more ihFirst ihMore =>
    exact (ihFirst.comp ihMore).behind fun u us vs hkind _ ⟨_, first, more⟩ =>
      .slash (hkind.trans kind) first more
  | descent kind first more ihFirst ihMore =>
    exact (ihFirst.comp ihMore).behind fun u us vs hkind _ ⟨_, first, more⟩ =>
      .descent (hkind.trans kind) first more
  | step head conditions ihConditions =>
    exact (head.stable.comp ihConditions).mono fun us vs ⟨_, head, conditions⟩ =>
      .step head conditions
  | noPredicate next => exact next.stable (fun t u hk _ hu => hk ▸ hu) fun us => .noPredicate
  | predicate kind first kind' more ihFirst ihMore =>
    refine (ihFirst.comp ((stable_follows _ _).comp ihMore)).behind ?_
    rintro t us vs hkind - ⟨_, first, _, ⟨u, rfl, hkind', -⟩, more⟩
    exact .predicate (hkind.trans kind) first (hkind'.trans kind') more

end Parser

/-- The same tokens at other places stand for the same expression. -/
theorem parseTokens_of_same {functions : Registry} {ts us : List Token} {e : Expr}
    (h : parseTokens functions ts = .ok e) (hs : SameTokens ts us) :
    parseTokens functions us = .ok e := by
  obtain ⟨vs, hvs, hderives⟩ := (parseTokens_eq_ok.1 h).stable us hs
  rw [hvs.nil_left] at hderives
  exact parseTokens_eq_ok.2 hderives

/-! ### Whole texts -/

/-- The rendering of a text's tokens has the same tokens. -/
theorem tokenize_renderTokens {limit : Nat} {s : String} {ts : List Token}
    (h : tokenize limit s = .ok ts) :
    ∃ us, tokenize limit (renderTokens ts) = .ok us ∧ SameTokens ts us := by
  have hlexed : Lexer.Lexed limit .operand [] ts := Lexer.lexed_of_run (Lexer.start s) ts h
  have hrest : (Lexer.start (renderTokens ts)).cursor.rest = writtenChars ts :=
    Lexer.toList_renderTokens hlexed
  obtain ⟨us, hus, hs⟩ :=
    Lexer.run_of_lexed hlexed (Lexer.start (renderTokens ts)) rfl rfl (by rw [hrest])
  exact ⟨us, hus, hs.symm⟩

/-- The writer does not look at places. -/
theorem foldl_add_of_same {ts us : List Token} (h : SameTokens ts us) (r : Rendering) :
    ts.foldl Rendering.add r = us.foldl Rendering.add r := by
  induction ts generalizing us r with
  | nil => rw [h.nil_left]
  | cons t ts ih =>
    obtain ⟨u, us, rfl, kind, text, hts⟩ := h.cons_left
    have hadd : r.add t = r.add u := by simp only [Rendering.add, kind, text]
    rw [List.foldl_cons, List.foldl_cons, hadd]
    exact ih hts (r.add u)

/-- The rendering of a text is rendered as it stands. -/
theorem renderTokens_stable {limit : Nat} {s : String} {ts : List Token}
    (h : tokenize limit s = .ok ts) :
    (tokenize limit (renderTokens ts)).map renderTokens = .ok (renderTokens ts) := by
  obtain ⟨us, hus, hsame⟩ := tokenize_renderTokens h
  have hwritten : renderTokens ts = renderTokens us :=
    congrArg Rendering.written (foldl_add_of_same hsame ⟨"", []⟩)
  rw [hus, hwritten]
  rfl

/-- A text that can be broken into tokens has the same tokens as their rendering, at other places,
and whatever functions may be called, both are parsed to the same expression. -/
theorem renderTokens_roundTrip {limit : Nat} {s : String} {ts : List Token}
    (h : tokenize limit s = .ok ts) :
    (∃ us, tokenize limit (renderTokens ts) = .ok us ∧
      us.map Token.unplaced = ts.map Token.unplaced) ∧
    ∀ functions e, parse functions limit s = .ok e →
      parse functions limit (renderTokens ts) = .ok e := by
  obtain ⟨us, hus, hs⟩ := tokenize_renderTokens h
  refine ⟨⟨us, hus, Eq.symm hs⟩, fun functions e he => ?_⟩
  obtain ⟨vs, hvs, hderives⟩ := parse_eq_ok.1 he
  have heq : ts = vs := by
    rw [h] at hvs
    exact Except.ok.inj hvs
  subst heq
  have hparse := parseTokens_of_same (parseTokens_eq_ok.2 hderives) hs
  exact parse_eq_ok.2 ⟨us, hus, parseTokens_eq_ok.1 hparse⟩

/-- In a predicate inside a call white space goes and a quote changes, and a word keeps its spaces.
-/
theorem renderTokens_roundTrip_nested :
    ∃ ts us e, tokenize 2 "count( // a [ b  and \"x\" < .5 ] )" = .ok ts ∧
      renderTokens ts = "count(//a[b and 'x'<.5])" ∧
      tokenize 2 (renderTokens ts) = .ok us ∧ us.map Token.unplaced = ts.map Token.unplaced ∧
      parse .standard 2 "count( // a [ b  and \"x\" < .5 ] )" = .ok e ∧
      parse .standard 2 (renderTokens ts) = .ok e := by
  have hrendered : (tokenize 2 "count( // a [ b  and \"x\" < .5 ] )").map renderTokens
      = .ok "count(//a[b and 'x'<.5])" := by
    decide +kernel
  have hparsed : (parse .standard 2 "count( // a [ b  and \"x\" < .5 ] )").isOk := by
    decide +kernel
  obtain ⟨ts, hts, hwritten⟩ := map_eq_ok.1 hrendered
  obtain ⟨e, he⟩ := exists_eq_ok_of_isOk hparsed
  obtain ⟨⟨us, hus, hs⟩, hparse⟩ := renderTokens_roundTrip hts
  exact ⟨ts, us, e, hts, hwritten, hus, hs, he, hparse _ e he⟩

end XPath
