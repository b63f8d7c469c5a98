import XPath.Builtin
import XPath.Proofs.Eval.Strictness
import XPath.Proofs.Expr.Accepted

/-!
# The names in an expression

The lexer measures a name as a run of name characters.  A name must also begin with a name start,
and a variable's name may have one colon; neither is measured.  So the names in an expression that
was read are made of the right characters, and whether they are names is a matter of how they begin
and, for variables, of how many colons they have.

* `Expr.nameTests`: the node tests by name, at any depth;
* `QName.IsTest`, `IsQualified`: the names that node tests and variables should have;
* `QName.Spelled`: the names that are measured in node tests;
* `Parser.Spells`, `Derives.spells`: the names in what is derived, by induction on the grammar;
* `parse_names`: which of the names in an expression are as they should be.
-/

namespace XPath

open Lexer (startsWith IsWord IsStepWord IsVariableName variableLength)

/-! ### Names of an expression -/

def NodeTest.name? : NodeTest → Option QName
  | .name space localPart => some ⟨space, localPart⟩
  | _ => none

/-- The steps of a path, or those behind a primary expression. -/
def Expr.steps : Expr → List (Step Expr)
  | .path _ ss | .filter _ _ ss => ss
  | _ => []

/-- The names that the node tests in an expression ask for, at any depth. -/
def Expr.nameTests (e : Expr) : List QName :=
  e.parts.flatMap fun f => f.steps.filterMap fun s => s.test.name?

theorem Expr.mem_nameTests {e : Expr} {q : QName} :
    q ∈ e.nameTests ↔ ∃ f ∈ e.parts, ∃ s ∈ f.steps, s.test.name? = some q := by
  simp only [nameTests, List.mem_flatMap, List.mem_filterMap]

/-! ### Names as they should be -/

/-- Whether a text begins as a name must. -/
def BeginsName (s : String) : Prop :=
  startsWith isNameStart s.toList

instance (s : String) : Decidable (BeginsName s) :=
  inferInstanceAs (Decidable (startsWith isNameStart s.toList = true))

/-- A prefix and a local part that are names; behind a prefix the local part may be a star. -/
def QName.IsTest (q : QName) : Prop :=
  (∀ p ∈ q.space, IsName p) ∧ (IsName q.localPart ∨ q.space.isSome ∧ q.localPart = "*")

instance (q : QName) : Decidable q.IsTest :=
  inferInstanceAs (Decidable (_ ∧ _))

/-- A name, or two names joined by a colon. -/
def IsQualified (s : String) : Prop :=
  IsName s ∨ ∃ p l, IsName p ∧ IsName l ∧ s = p ++ ":" ++ l

theorem isName_iff {s : String} :
    IsName s ↔ BeginsName s ∧ ∀ c ∈ s.toList, isNameChar c := by
  unfold IsName BeginsName
  cases s.toList with
  | nil => simp
  | cons c cs =>
    rw [List.forall_mem_cons, Lexer.startsWith_cons]
    constructor
    · exact fun h => ⟨h.1, isNameChar_of_isNameStart h.1, List.all_eq_true.1 h.2⟩
    · exact fun h => ⟨h.1, List.all_eq_true.2 h.2.2⟩

theorem isName_iff_of_isWord {s : String} (h : IsWord s.toList) : IsName s ↔ BeginsName s := by
  rw [isName_iff]
  exact and_iff_left h.nameChars

theorem not_mem_colon {w : List Char} (h : ∀ c ∈ w, isNameChar c) : ':' ∉ w :=
  fun hc => absurd (h ':' hc) (by decide)

/-- A colon is measured between name characters only. -/
theorem nameChars_of_variableLength {w : List Char} :
    ∀ {begun}, variableLength begun w = w.length → ':' ∉ w → ∀ c ∈ w, isNameChar c := by
  induction w with
  | nil => exact fun _ _ => List.forall_mem_nil _
  | cons c w ih =>
    intro begun h hcolon
    obtain ⟨hc, hw⟩ := not_or.1 (List.mem_cons.not.1 hcolon)
    rw [variableLength] at h
    split at h
    · rename_i hname
      have hc : (c == ':') = false := beq_false_of_ne (Ne.symm hc)
      have hlength : variableLength true w = w.length := by simpa using h
      exact List.forall_mem_cons.2 ⟨by simpa [hc] using hname, ih hlength hw⟩
    · simp at h

/-- Behind the first colon that is measured in a name the rest begins as a name. -/
theorem split_of_variableLength {w : List Char} :
    ∀ {begun}, variableLength begun w = w.length → ':' ∈ w →
      ∃ p l, w = p ++ ':' :: l ∧ (∀ c ∈ p, isNameChar c) ∧ startsWith isNameStart l ∧
        variableLength true l = l.length := by
  induction w with
  | nil => exact fun _ hcolon => absurd hcolon List.not_mem_nil
  | cons c w ih =>
    intro begun h hcolon
    rw [variableLength] at h
    split at h
    · rename_i hname
      have hlength : variableLength true w = w.length := by simpa using h
      by_cases hc : c = ':'
      · subst hc
        have hcolon : isNameChar ':' = false := by decide
        simp only [hcolon, Bool.false_or, Bool.and_eq_true] at hname
        exact ⟨[], w, rfl, List.forall_mem_nil _, hname.2, hlength⟩
      · have hcolon := (List.mem_cons.1 hcolon).resolve_left (Ne.symm hc)
        obtain ⟨p, l, rfl, hp, hl⟩ := ih hlength hcolon
        have hname : isNameChar c := by simpa [hc] using hname
        exact ⟨c :: p, l, rfl, List.forall_mem_cons.2 ⟨hname, hp⟩, hl⟩
    · simp at h

/-- What is measured as a variable's name is a name, or two joined by a colon, exactly if it begins
as a name and has one colon at most. -/
theorem isQualified_iff {s : String} (h : IsVariableName s.toList) :
    IsQualified s ↔ BeginsName s ∧ s.toList.count ':' ≤ 1 := by
  constructor
  · rintro (hname | ⟨p, l, hp, hl, rfl⟩)
    · obtain ⟨hbegins, hchars⟩ := isName_iff.1 hname
      exact ⟨hbegins, by rw [List.count_eq_zero_of_not_mem (not_mem_colon hchars)]; omega⟩
    · obtain ⟨hbegins, hchars⟩ := isName_iff.1 hp
      have hcolons : (p ++ ":" ++ l).toList.count ':' = 1 := by
        have hp := List.count_eq_zero_of_not_mem (not_mem_colon hchars)
        have hl := List.count_eq_zero_of_not_mem (not_mem_colon (isName_iff.1 hl).2)
        simp [List.count_append, hp, hl]
      refine ⟨?_, Nat.le_of_eq hcolons⟩
      unfold BeginsName at hbegins ⊢
      rw [String.toList_append, String.toList_append, List.append_assoc, Lexer.startsWith_append]
      · exact hbegins
      · rintro hnil
        simp [hnil] at hbegins
  · rintro ⟨hbegins, hcolons⟩
    by_cases hcolon : ':' ∈ s.toList
    · obtain ⟨p, l, hs, hp, hstart, hl⟩ := split_of_variableLength h.length hcolon
      have hl' : ':' ∉ l := by
        rw [hs, List.count_append, List.count_cons_self] at hcolons
        exact List.count_eq_zero.1 (by omega)
      refine .inr ⟨String.ofList p, String.ofList l,
        isName_iff.2 ⟨?_, ?_⟩, isName_iff.2 ⟨?_, ?_⟩, ?_⟩
      -- what stands in front of the colon begins as the whole text does
      · unfold BeginsName at hbegins ⊢
        rw [hs] at hbegins
        rw [String.toList_ofList]
        cases p with
        | nil =>
          have hcolon : isNameStart ':' = false := by decide
          rw [List.nil_append, Lexer.startsWith_cons, hcolon] at hbegins
          exact absurd hbegins Bool.false_ne_true
        | cons c p => exact hbegins
      · rwa [String.toList_ofList]
      · rwa [BeginsName, String.toList_ofList]
      · rw [String.toList_ofList]
        exact nameChars_of_variableLength hl hl'
      · rw [← String.toList_inj, hs]
        simp
    · exact .inl (isName_iff.2 ⟨hbegins, nameChars_of_variableLength h.length hcolon⟩)

/-! ### Names as they are measured -/

/-- A prefix and a local part that are words; behind a prefix the local part may be a star. -/
def QName.Spelled (q : QName) : Prop :=
  (∀ p ∈ q.space, IsWord p.toList) ∧
    (IsWord q.localPart.toList ∨ q.space.isSome ∧ q.localPart = "*")

/-- The name of a node test is as it should be exactly if its parts begin as names. -/
theorem QName.Spelled.isTest_iff {q : QName} (h : q.Spelled) :
    q.IsTest ↔ (∀ p ∈ q.space, BeginsName p) ∧ (q.localPart = "*" ∨ BeginsName q.localPart) := by
  refine and_congr (forall₂_congr fun p hp => isName_iff_of_isWord (h.1 p hp)) ?_
  rcases h.2 with hword | ⟨hsome, hstar⟩
  · have hstar : q.localPart ≠ "*" := by
      intro hstar
      exact hword.star_not_mem (by rw [hstar]; decide)
    rw [isName_iff_of_isWord hword]
    simp [hstar]
  · exact iff_of_true (.inr ⟨hsome, hstar⟩) (.inl hstar)

/-- The node tests by name and the variables in an expression are spelled as they are measured. -/
def Expr.Spelled (e : Expr) : Prop :=
  (∀ q ∈ e.nameTests, q.Spelled) ∧ ∀ v ∈ e.variableNames, IsVariableName v.toList

/-- So are those in a step. -/
def Step.Spelled (s : Step Expr) : Prop :=
  (∀ q ∈ s.test.name?, q.Spelled) ∧ ∀ p ∈ s.predicates, p.Spelled

/-- The names in an expression are its own and those of what is directly inside. -/
theorem Expr.spelled_of_inner {e : Expr} (hsteps : ∀ s ∈ e.steps, ∀ q ∈ s.test.name?, q.Spelled)
    (hvariable : ∀ v, e = .variable v → IsVariableName v.toList)
    (hinner : ∀ f ∈ e.inner, f.Spelled) : e.Spelled := by
  constructor
  · intro q hq
    obtain ⟨f, hf, s, hs, hname⟩ := mem_nameTests.1 hq
    rcases mem_parts.1 hf with rfl | ⟨g, hg, hf⟩
    · exact hsteps s hs q hname
    · exact (hinner g hg).1 q (mem_nameTests.2 ⟨f, hf, s, hs, hname⟩)
  · intro v hv
    rcases mem_parts.1 (mem_variableNames.1 hv) with hself | ⟨g, hg, hv⟩
    · exact hvariable v hself.symm
    · exact (hinner g hg).2 v (mem_variableNames.2 hv)

/-- An expression without names of its own has those of what is directly inside. -/
theorem Expr.spelled_of_unnamed {e : Expr} (hsteps : e.steps = [])
    (hvariable : ∀ v, e ≠ .variable v)
    (hinner : ∀ f ∈ e.inner, f.Spelled) : e.Spelled := by
  refine spelled_of_inner ?_ (fun v heq => absurd heq (hvariable v)) hinner
  rw [hsteps]
  exact List.forall_mem_nil _

theorem Expr.spelled_apply (op : Operator) (l r : Expr) (hl : l.Spelled) (hr : r.Spelled) :
    (op.apply l r).Spelled := by
  have hinner : ∀ f ∈ [l, r], f.Spelled := by simp [hl, hr]
  cases op with
  | comparison op => exact spelled_of_unnamed rfl (by simp [Operator.apply]) hinner
  | connective op => exact spelled_of_unnamed rfl (by simp [Operator.apply]) hinner

theorem Expr.spelled_variable {v : String} (h : IsVariableName v.toList) :
    (Expr.variable v).Spelled :=
  spelled_of_inner (List.forall_mem_nil _) (fun _ heq => Expr.variable.inj heq ▸ h)
    (List.forall_mem_nil _)

theorem Expr.spelled_call {name : String} {args : List Expr} (h : ∀ e ∈ args, e.Spelled) :
    (Expr.call name args).Spelled :=
  spelled_of_unnamed rfl (by simp) h

theorem Expr.spelled_path {absolute : Bool} {ss : List (Step Expr)} (h : ∀ s ∈ ss, s.Spelled) :
    (Expr.path absolute ss).Spelled :=
  spelled_of_inner (fun s hs => (h s hs).1) (by simp) (forall_inner_path fun s hs => (h s hs).2)

theorem Expr.spelled_narrowed {primary : Expr} {ps : List Expr} {ss : List (Step Expr)}
    (h : primary.Spelled) (hps : ∀ p ∈ ps, p.Spelled) (hss : ∀ s ∈ ss, s.Spelled) :
    (Parser.narrowed primary ps ss).Spelled := by
  unfold Parser.narrowed
  split
  · exact h
  · exact spelled_of_inner (fun s hs => (hss s hs).1) (by simp)
      (forall_inner_filter h hps fun s hs => (hss s hs).2)

namespace Parser

/-- The text of a token is one that the lexer measures for names of its kind. -/
def Measured (t : Token) : Prop :=
  match t.kind with
  | .name => IsStepWord t.text.toList
  | .nameSpace => IsWord t.text.toList
  | .variable => IsVariableName t.text.toList
  | _ => True

theorem measured_of_lexed {limit : Nat} {mode : Lexer.Mode} {es : List Lexer.Bracket}
    {ts : List Token} (h : Lexer.Lexed limit mode es ts) : ∀ t ∈ ts, Measured t := by
  induction h with
  | noOperand => exact List.forall_mem_nil _
  | noOperator => exact List.forall_mem_nil _
  | path opens noNumber rest ih => exact ih
  | variableName word rest ih => exact List.forall_mem_cons.2 ⟨word, ih⟩
  | nameSpace word rest ih => exact List.forall_mem_cons.2 ⟨word, ih⟩
  | name word rest ih => exact List.forall_mem_cons.2 ⟨word, ih⟩
  | root opens rest ih =>
    exact List.forall_mem_cons.2 ⟨trivial, List.forall_mem_cons.2 ⟨trivial, ih⟩⟩
  | target word rest ih =>
    exact List.forall_mem_cons.2 ⟨trivial, List.forall_mem_cons.2 ⟨trivial, ih⟩⟩
  | emptyCall word other rest ih =>
    exact List.forall_mem_cons.2 ⟨trivial, List.forall_mem_cons.2 ⟨trivial, ih⟩⟩
  | call word other depth rest ih =>
    exact List.forall_mem_cons.2 ⟨trivial, List.forall_mem_cons.2 ⟨trivial, ih⟩⟩
  | _ => exact List.forall_mem_cons.2 ⟨trivial, ‹_›⟩

theorem Measured.name {t : Token} (h : Measured t) (kind : t.kind = .name) :
    IsStepWord t.text.toList := by
  rwa [Measured, kind] at h

theorem Measured.nameSpace {t : Token} (h : Measured t) (kind : t.kind = .nameSpace) :
    IsWord t.text.toList := by
  rwa [Measured, kind] at h

theorem Measured.variableName {t : Token} (h : Measured t) (kind : t.kind = .variable) :
    IsVariableName t.text.toList := by
  rwa [Measured, kind] at h

/-- The name of a step that has no prefix is no star, or it would be no name. -/
theorem spelled_of_namedStep {explicit : Option Axis} {text : String} {a : Axis} {test : NodeTest}
    (h : namedStep explicit text = .ok (a, test)) (hword : IsStepWord text.toList) :
    ∀ q ∈ test.name?, q.Spelled := by
  unfold namedStep at h
  split at h
  · split at h
    · simp at h
    · rw [Except.ok.injEq, Prod.mk.injEq] at h
      rw [← h.2]
      exact nofun
  · rw [Except.ok.injEq, Prod.mk.injEq] at h
    rw [← h.2]
    split
    · exact nofun
    · rename_i hstar
      have hword : IsWord text.toList := by
        refine hword.resolve_right fun hs => hstar ?_
        rw [← String.toList_inj, hs]
        rfl
      intro q hq
      obtain rfl : ⟨none, text⟩ = q := Option.some.inj hq
      exact ⟨nofun, .inl hword⟩

/-- If the tokens are spelled as they are measured, so is what is read of them, as the statement
says, and those that are left. -/
def Spells (A : Prop) (ts us : List Token) : Prop :=
  (∀ t ∈ ts, Measured t) → A ∧ ∀ t ∈ us, Measured t

section Spells

variable {A B : Prop} {ts us vs : List Token}

theorem spells_self (hA : A) (ts : List Token) : Spells A ts ts :=
  fun hts => ⟨hA, hts⟩

theorem spells_token (t : Token) (ts : List Token) : Spells (Measured t) (t :: ts) ts :=
  fun hts => List.forall_mem_cons.1 hts

theorem Spells.mono (h : Spells A ts us) (hAB : A → B) : Spells B ts us :=
  fun hts => (h hts).imp_left hAB

theorem Spells.comp (h : Spells A ts us) (h' : Spells B us vs) : Spells (A ∧ B) ts vs := by
  intro hts
  obtain ⟨hA, hus⟩ := h hts
  obtain ⟨hB, hvs⟩ := h' hus
  exact ⟨⟨hA, hB⟩, hvs⟩

/-- One more token in front, whose text is no name. -/
theorem Spells.behind (t : Token) (h : Spells A ts us) : Spells A (t :: ts) us :=
  ((spells_token t ts).comp h).mono And.right

end Spells

theorem WrittenAxis.spells {explicit : Option Axis} {ts us : List Token}
    (h : WrittenAxis explicit ts us) : Spells True ts us := by
  cases h with
  | axis kind found => exact (spells_self trivial _).behind _
  | attributeSign kind => exact (spells_self trivial _).behind _
  | nothing => exact spells_self trivial _

/-- A name or a star behind a prefix. -/
theorem spelled_of_prefixed {t u : Token} (ht : Measured t) (hu : Measured u)
    (kind : t.kind = .nameSpace) (kind' : u.kind = .name) :
    (⟨some t.text, u.text⟩ : QName).Spelled := by
  refine ⟨fun p hp => Option.some.inj hp ▸ ht.nameSpace kind, ?_⟩
  rcases hu.name kind' with hword | hstar
  · exact .inl hword
  · refine .inr ⟨rfl, ?_⟩
    show u.text = "*"
    rw [← String.toList_inj, hstar]
    rfl

theorem spells_unnamed {test : NodeTest} (h : test.name? = none) (ts : List Token) :
    Spells (∀ q ∈ test.name?, q.Spelled) ts ts :=
  spells_self (by simp [h]) ts

theorem WrittenTest.spells {explicit : Option Axis} {a : Axis} {test : NodeTest}
    {ts us : List Token} (h : WrittenTest explicit a test ts us) :
    Spells (∀ q ∈ test.name?, q.Spelled) ts us := by
  cases h with
  | name kind head =>
    exact (spells_token _ _).mono fun ht => spelled_of_namedStep head (ht.name kind)
  | nameSpace kind kind' =>
    refine ((spells_token _ _).comp (spells_token _ _)).mono ?_
    rintro ⟨ht, hu⟩ q hq
    exact Option.some.inj hq ▸ spelled_of_prefixed ht hu kind kind'
  | nodeType kind plain =>
    refine (spells_unnamed ?_ _).behind _
    simp only [plainNodeTypes, List.mem_cons, List.not_mem_nil, or_false, Prod.mk.injEq] at plain
    rcases plain with ⟨-, rfl⟩ | ⟨-, rfl⟩ | ⟨-, rfl⟩ <;> rfl
  | instruction kind text next => exact (spells_unnamed rfl _).behind _
  | target kind text kind' => exact ((spells_unnamed rfl _).behind _).behind _

theorem StepHead.spells {a : Axis} {test : NodeTest} {ts us : List Token}
    (h : StepHead a test ts us) : Spells (∀ q ∈ test.name?, q.Spelled) ts us := by
  obtain ⟨explicit, mid, haxis, htest⟩ := h
  exact (haxis.spells.comp htest.spells).mono And.right

def Phrase.Spelled : Phrase → Prop
  | .expression e | .operand e => e.Spelled
  | .chain ops => ∀ o ∈ ops, o.2.Spelled
  | .arguments es | .predicates es => ∀ e ∈ es, e.Spelled
  | .steps ss => ∀ s ∈ ss, s.Spelled
  | .step s => s.Spelled

/-- Two slashes stand for a step without a name. -/
theorem spelled_anyBelow {ss : List (Step Expr)} (h : ∀ s ∈ ss, s.Spelled) :
    ∀ s ∈ Step.anyBelow :: ss, Step.Spelled s :=
  List.forall_mem_cons.2 ⟨⟨nofun, List.forall_mem_nil _⟩, h⟩

/-- What is derived from tokens is spelled as they are, and leaves tokens of the same spelling. -/
theorem Derives.spells {functions : Registry} {ph : Phrase} {ts us : List Token}
    (h : Derives functions ph ts us) : Spells ph.Spelled ts us := by
  induction h with
  | expression left more ihLeft ihMore =>
    refine (ihLeft.comp ihMore).mono ?_
    rintro ⟨hleft, hops⟩
    exact assemble_of_apply Expr.spelled_apply hleft hops
  | noOperator next => exact spells_self (List.forall_mem_nil _) _
  | operator found right more ihRight ihMore =>
    exact ((ihRight.comp ihMore).mono fun h => List.forall_mem_cons.2 h).behind _
  | string kind =>
    exact (spells_self (Expr.spelled_of_unnamed rfl (by simp) (List.forall_mem_nil _)) _).behind _
  | number kind value =>
    exact (spells_self (Expr.spelled_of_unnamed rfl (by simp) (List.forall_mem_nil _)) _).behind _
  | variableName kind conditions more ihConditions ihMore =>
    refine ((spells_token _ _).comp (ihConditions.comp ihMore)).mono ?_
    rintro ⟨ht, hconditions, hmore⟩
    exact Expr.spelled_narrowed (Expr.spelled_variable (ht.variableName kind)) hconditions hmore
  | call kind inside allowed conditions more ihInside ihConditions ihMore =>
    refine ((ihInside.comp (ihConditions.comp ihMore)).mono ?_).behind _
    rintro ⟨hargs, hconditions, hmore⟩
    exact Expr.spelled_narrowed (Expr.spelled_call hargs) hconditions hmore
  | prefixedCall kind kind' inside allowed conditions more ihInside ihConditions ihMore =>
    refine (((ihInside.comp (ihConditions.comp ihMore)).mono ?_).behind _).behind _
    rintro ⟨hargs, hconditions, hmore⟩
    exact Expr.spelled_narrowed (Expr.spelled_call hargs) hconditions hmore
  | root kind kind' =>
    exact ((spells_self (Expr.spelled_path (List.forall_mem_nil _)) _).behind _).behind _
  | rootSlash kind first more ihFirst ihMore =>
    refine ((ihFirst.comp ihMore).mono fun h => ?_).behind _
    exact Expr.spelled_path (List.forall_mem_cons.2 h)
  | rootDescent kind first more ihFirst ihMore =>
    refine ((ihFirst.comp ihMore).mono fun h => ?_).behind _
    exact Expr.spelled_path (spelled_anyBelow (List.forall_mem_cons.2 h))
  | path first more ihFirst ihMore =>
    exact (ihFirst.comp ihMore).mono fun h => Expr.spelled_path (List.forall_mem_cons.2 h)
  | noArgument kind => exact (spells_self (List.forall_mem_nil _) _).behind _
  | argument kind first more ihFirst ihMore =>
    exact ((ihFirst.comp ihMore).mono fun h => List.forall_mem_cons.2 h).behind _
  | noStep kind => exact (spells_self (List.forall_mem_nil _) _).behind _
  | slash kind first more ihFirst ihMore =>
    exact ((ihFirst.comp ihMore).mono fun h => List.forall_mem_cons.2 h).behind _
  | descent kind first more ihFirst ihMore =>
    exact ((ihFirst.comp ihMore).mono fun h => spelled_anyBelow (List.forall_mem_cons.2 h)).behind _
  | step head conditions ihConditions => exact head.spells.comp ihConditions
  | noPredicate next => exact spells_self (List.forall_mem_nil _) _
  | predicate kind first kind' more ihFirst ihMore =>
    exact ((ihFirst.comp (ihMore.behind _)).mono fun h => List.forall_mem_cons.2 h).behind _

end Parser

/-- The names in an expression that was read are spelled as they are measured. -/
theorem spelled_of_parse {functions : Registry} {limit : Nat} {s : String} {e : Expr}
    (h : parse functions limit s = .ok e) : e.Spelled := by
  obtain ⟨ts, hts, hderives⟩ := parse_eq_ok.1 h
  have hlexed : Lexer.Lexed limit .operand [] ts := Lexer.lexed_of_run (Lexer.start s) ts hts
  exact (hderives.spells (Parser.measured_of_lexed hlexed)).1

/-! ### Which names are as they should be -/

/-- The node tests and variables of an expression that was read are spelled with name characters
only, apart from a star behind a prefix and from colons in a variable's name.  The name of a node
test is as it should be exactly if its parts begin as names must, and that of a variable exactly if
it begins so and has one colon at most. -/
theorem parse_names {functions : Registry} {limit : Nat} {s : String} {e : Expr}
    (h : parse functions limit s = .ok e) :
    (∀ q ∈ e.nameTests, q.Spelled ∧ (q.IsTest ↔
      (∀ p ∈ q.space, BeginsName p) ∧ (q.localPart = "*" ∨ BeginsName q.localPart))) ∧
    ∀ v ∈ e.variableNames, IsVariableName v.toList ∧
      (IsQualified v ↔ BeginsName v ∧ v.toList.count ':' ≤ 1) := by
  obtain ⟨htests, hvariables⟩ := spelled_of_parse h
  exact ⟨fun q hq => ⟨htests q hq, (htests q hq).isTest_iff⟩,
    fun v hv => ⟨hvariables v hv, isQualified_iff (hvariables v hv)⟩⟩

/-- Behind a slash a word is taken for a name though it begins with a digit. -/
theorem parse_digit : ∃ e, parse .standard 32 "a/1b" = .ok e ∧
    ∃ q ∈ e.nameTests, ¬q.IsTest := by
  have htests : (parse .standard 32 "a/1b").map Expr.nameTests
      = .ok [⟨none, "a"⟩, ⟨none, "1b"⟩] := by decide +kernel
  obtain ⟨e, he, htests⟩ := map_eq_ok.1 htests
  refine ⟨e, he, ⟨none, "1b"⟩, ?_, by decide +kernel⟩
  simp [htests]

/-- Of the names here two are no names: one begins with a digit, and one has two colons. -/
theorem parse_names_mixed : ∃ e, parse .standard 2 "p:*[$v:w]/1b[$x:y:z]" = .ok e ∧
    (⟨some "p", "*"⟩ : QName).IsTest ∧ ¬(⟨none, "1b"⟩ : QName).IsTest ∧
    IsQualified "v:w" ∧ ¬IsQualified "x:y:z" := by
  have hparsed : (parse .standard 2 "p:*[$v:w]/1b[$x:y:z]").isOk := by decide +kernel
  obtain ⟨e, he⟩ := exists_eq_ok_of_isOk hparsed
  have htests : (parse .standard 2 "p:*[$v:w]/1b[$x:y:z]").map Expr.nameTests
      = .ok [⟨some "p", "*"⟩, ⟨none, "1b"⟩] := by decide +kernel
  have hvariables : (parse .standard 2 "p:*[$v:w]/1b[$x:y:z]").map Expr.variableNames
      = .ok ["v:w", "x:y:z"] := by decide +kernel
  rw [he, Except.map, Except.ok.injEq] at htests hvariables
  obtain ⟨hnames, hqualified⟩ := parse_names he
  refine ⟨e, he, ?_, ?_, ?_, ?_⟩
  · exact (hnames _ (by simp [htests])).2.2 (by decide +kernel)
  · exact fun h => absurd ((hnames ⟨none, "1b"⟩ (by simp [htests])).2.1 h) (by decide +kernel)
  · exact (hqualified _ (by simp [hvariables])).2.2 (by decide +kernel)
  · exact fun h => absurd ((hqualified "x:y:z" (by simp [hvariables])).2.1 h) (by decide +kernel)

end XPath
