import XPath.Proofs.Expr.Balanced
import XPath.Proofs.Token.Grammar

/-!
# The texts that are parsed

The reader fails in many places.  All its demands together come to a few conditions on the tokens,
and each of them is about the end of the tokens, about one call or about one step.

* `WrittenStep`, `writtenSteps`: the steps and calls among tokens, as they are written;
* `WrittenStep.Legal`, `WrittenStep.Allowed`: what the reader demands of one of them;
* `WellFormed`: what it demands of the tokens of a text;
* `Derives.fine_iff`, `Derives.complete`: what is derived meets the demands;
* `Rule.Readable`: what meets the demands is derived, by induction on the grammar of the tokens;
* `parse_accepts_iff`: the texts that are parsed.
-/

namespace XPath

/-! ### Steps as they are written -/

/-- A step or a call as it is written. -/
structure WrittenStep where
  /-- Whether an operand begins with it. -/
  leads : Bool
  /-- The axes, attribute signs and prefixes in front of its head. -/
  marks : List Token
  /-- Its name or node type, or the function that is called. -/
  head : Token
  /-- The number of arguments behind the function. -/
  arguments : Nat

/-- The number of arguments up to the end of a call, inside which some enclosures are open. -/
def argumentCount : Nat → List Token → Nat
  | _, [] => 0
  | depth, t :: ts =>
    if depth = 0 ∧ t.kind.closes then 0
    else if depth = 0 ∧ t.kind = .argument then argumentCount 0 ts + 1
    else argumentCount (t.depthBehind depth) ts

/-- The steps and calls among tokens, behind some marks that belong to the first. -/
def stepsFrom (leads : Bool) (marks : List Token) : List Token → List WrittenStep
  | [] => []
  | t :: ts =>
    match t.kind with
    | .axis | .attributeSign | .nameSpace => stepsFrom leads (marks ++ [t]) ts
    | .name | .nodeType | .call =>
      ⟨leads, marks, t, argumentCount 0 ts⟩ :: stepsFrom false [] ts
    | .operator | .argument | .predicateStart => stepsFrom true [] ts
    | _ => stepsFrom false [] ts

/-- The steps and calls among the tokens of a text. -/
def writtenSteps (ts : List Token) : List WrittenStep :=
  stepsFrom true [] ts

inductive AtMostOneAxis : List Token → Prop
  | none : AtMostOneAxis []
  | one {t} (kind : t.kind = .axis ∨ t.kind = .attributeSign) : AtMostOneAxis [t]

namespace WrittenStep

/-- How a step may be written. -/
inductive Legal : WrittenStep → Prop
  /-- Only an operand may begin with a call. -/
  | call {head n} (kind : head.kind = .call) : Legal ⟨true, [], head, n⟩
  | prefixedCall {space head n} (kind : space.kind = .nameSpace) (kind' : head.kind = .call) :
    Legal ⟨true, [space], head, n⟩
  | name {leads axes head n} (once : AtMostOneAxis axes) (kind : head.kind = .name)
    (alone : head.text = "." ∨ head.text = ".." → axes = []) : Legal ⟨leads, axes, head, n⟩
  | prefixedName {leads axes space head n} (once : AtMostOneAxis axes)
    (kind : space.kind = .nameSpace) (kind' : head.kind = .name) :
    Legal ⟨leads, axes ++ [space], head, n⟩
  | nodeType {leads axes head n} (once : AtMostOneAxis axes) (kind : head.kind = .nodeType) :
    Legal ⟨leads, axes, head, n⟩

/-- The name under which a function is called, with its prefix if there is one. -/
def callName (w : WrittenStep) : String :=
  match w.marks with
  | [space] => space.text ++ ":" ++ w.head.text
  | _ => w.head.text

/-- If the head is a function, it may be called with so many arguments. -/
def Allowed (functions : Registry) (w : WrittenStep) : Prop :=
  w.head.kind = .call → functions.check w.callName w.arguments = .ok ()

end WrittenStep

/-- The tokens do not end with an operator. -/
def Complete (ts : List Token) : Prop :=
  ∀ t ∈ ts.getLast?, t.kind ≠ .operator

theorem complete_nil : Complete [] :=
  fun _ ht => absurd ht (Option.not_mem_none _)

theorem Complete.cons {t : Token} {ts : List Token} (h : Complete ts)
    (ht : t.kind ≠ .operator ∨ ts ≠ []) : Complete (t :: ts) := by
  cases ts with
  | nil =>
    intro u hu
    have hu : t = u := by simpa using hu
    exact hu ▸ ht.resolve_right (by simp)
  | cons u us => simpa [Complete, List.getLast?_cons_cons] using h

theorem Complete.of_kind {t : Token} {k : Token.Kind} {ts : List Token} (kind : t.kind = k)
    (h : Complete ts) (hk : k ≠ .operator) : Complete (t :: ts) :=
  h.cons (.inl (kind ▸ hk))

/-- What the tokens of an expression must be like, given the functions that may be called. -/
structure WellFormed (functions : Registry) (ts : List Token) : Prop where
  ne_nil : ts ≠ []
  complete : Complete ts
  allowed : ∀ w ∈ writtenSteps ts, w.Allowed functions
  legal : ∀ w ∈ writtenSteps ts, w.Legal

namespace Parser

/-- All steps and calls among tokens are as they must be. -/
def Fine (functions : Registry) (leads : Bool) (marks ts : List Token) : Prop :=
  ∀ w ∈ stepsFrom leads marks ts, w.Legal ∧ w.Allowed functions

section Fine

variable {functions : Registry} {leads : Bool} {marks ts : List Token} {t : Token}

theorem fine_nil : Fine functions leads marks [] :=
  List.forall_mem_nil _

theorem fine_mark (kind : t.kind = .axis ∨ t.kind = .attributeSign ∨ t.kind = .nameSpace) :
    Fine functions leads marks (t :: ts) ↔ Fine functions leads (marks ++ [t]) ts := by
  obtain ⟨k, text, offset⟩ := t
  rcases kind with kind | kind | kind <;> cases kind <;> exact Iff.rfl

theorem fine_head (kind : t.kind = .name ∨ t.kind = .nodeType ∨ t.kind = .call) :
    Fine functions leads marks (t :: ts) ↔
      (WrittenStep.Legal ⟨leads, marks, t, argumentCount 0 ts⟩ ∧
        WrittenStep.Allowed functions ⟨leads, marks, t, argumentCount 0 ts⟩) ∧
      Fine functions false [] ts := by
  obtain ⟨k, text, offset⟩ := t
  rcases kind with kind | kind | kind <;> cases kind <;> exact List.forall_mem_cons

theorem fine_leading
    (kind : t.kind = .operator ∨ t.kind = .argument ∨ t.kind = .predicateStart) :
    Fine functions leads marks (t :: ts) ↔ Fine functions true [] ts := by
  obtain ⟨k, text, offset⟩ := t
  rcases kind with kind | kind | kind <;> cases kind <;> exact Iff.rfl

/-- The kinds of tokens that no operand follows and that belong to no step. -/
def plainKinds : List Token.Kind :=
  [.rootSlash, .rootDescent, .slash, .descent, .target, .callEnd, .string, .number, .variable,
    .predicateEnd, .pathEnd]

theorem fine_plain {k : Token.Kind} (kind : t.kind = k) (hk : k ∈ plainKinds) :
    Fine functions leads marks (t :: ts) ↔ Fine functions false [] ts := by
  subst kind
  obtain ⟨k, text, offset⟩ := t
  cases k <;> first | exact Iff.rfl | simp [plainKinds] at hk

/-- A step that is no call is allowed whatever functions there are. -/
theorem fine_step (kind : t.kind = .name ∨ t.kind = .nodeType)
    (legal : WrittenStep.Legal ⟨leads, marks, t, argumentCount 0 ts⟩) :
    Fine functions leads marks (t :: ts) ↔ Fine functions false [] ts := by
  rw [fine_head (kind.imp_right .inl)]
  refine and_iff_right ⟨legal, fun hcall => ?_⟩
  have hcall : t.kind = .call := hcall
  rcases kind with kind | kind <;> simp [hcall] at kind

theorem fine_call {name : String} {n : Nat} (kind : t.kind = .call)
    (legal : WrittenStep.Legal ⟨leads, marks, t, argumentCount 0 ts⟩)
    (hname : WrittenStep.callName ⟨leads, marks, t, argumentCount 0 ts⟩ = name)
    (hn : argumentCount 0 ts = n) (allowed : functions.check name n = .ok ()) :
    Fine functions leads marks (t :: ts) ↔ Fine functions false [] ts := by
  rw [fine_head (.inr (.inr kind))]
  refine and_iff_right ⟨legal, fun _ => ?_⟩
  rw [hname]
  exact hn ▸ allowed

end Fine

/-! ### The number of arguments -/

/-- Arguments are counted outside of enclosures only. -/
theorem Balanced.argumentCount_append {span : Span} {xs : List Token} (h : Balanced span xs)
    (us : List Token) (depth : Nat) (hd : depth = 0 → span.admits .argument = false) :
    argumentCount depth (xs ++ us) = argumentCount depth us := by
  have hstep : ∀ depth (t : Token) ts, (depth = 0 → t.kind.closes = false ∧ t.kind ≠ .argument) →
      argumentCount depth (t :: ts) = argumentCount (t.depthBehind depth) ts := by
    intro depth t ts ht
    rw [argumentCount, if_neg, if_neg]
    · exact fun h => (ht h.1).2 h.2
    · rintro ⟨h0, hcloses⟩
      rw [(ht h0).1] at hcloses
      exact Bool.false_ne_true hcloses
  have hskip : ∀ (zs : List Token) (n : Nat), zs.foldr (fun _ n => n) n = n := by
    intro zs n
    induction zs with
    | nil => rfl
    | cons z zs ih => exact ih
  exact (h.scan hstep rfl us depth hd).trans (hskip xs _)

/-- As many arguments are counted as are derived. -/
theorem Derives.argumentCount {functions : Registry} {es : List Expr} :
    ∀ {ts us}, Derives functions (.arguments es) ts us → argumentCount 0 ts = es.length := by
  induction es with
  | nil =>
    intro ts us h
    cases h with
    | noArgument kind => simp [XPath.argumentCount, kind, Token.Kind.closes]
  | cons e es ih =>
    intro ts us h
    cases h with
    | argument kind first more =>
      obtain ⟨xs, rfl, hxs⟩ := first.passes
      have hinside := fun us => Balanced.argumentCount_append hxs us 0 fun _ => rfl
      simp [XPath.argumentCount, kind, Token.Kind.closes, hinside, ih more]

/-! ### What is derived meets the demands -/

section Fine

variable {functions : Registry} {leads : Bool} {ts us : List Token}

theorem WrittenAxis.fine_iff {explicit : Option Axis} (h : WrittenAxis explicit ts us) :
    ∃ axes, AtMostOneAxis axes ∧ (explicit = none → axes = []) ∧
      (Fine functions leads [] ts ↔ Fine functions leads axes us) := by
  cases h with
  | @axis t _ _ kind found => exact ⟨[t], .one (.inl kind), nofun, fine_mark (.inl kind)⟩
  | @attributeSign t _ kind =>
    exact ⟨[t], .one (.inr kind), nofun, fine_mark (.inr (.inl kind))⟩
  | nothing => exact ⟨[], .none, fun _ => rfl, Iff.rfl⟩

theorem WrittenTest.fine_iff {explicit : Option Axis} {a : Axis} {test : NodeTest}
    (h : WrittenTest explicit a test ts us) {axes : List Token} (once : AtMostOneAxis axes)
    (hnone : explicit = none → axes = []) :
    Fine functions leads axes ts ↔ Fine functions false [] us := by
  cases h with
  | name kind head =>
    refine fine_step (.inl kind) (.name once kind fun htext => ?_)
    unfold namedStep at head
    rw [if_pos htext] at head
    cases explicit with
    | none => exact hnone rfl
    | some a => simp at head
  | nameSpace kind kind' =>
    exact (fine_mark (.inr (.inr kind))).trans
      (fine_step (.inl kind') (.prefixedName once kind kind'))
  | nodeType kind plain => exact fine_step (.inr kind) (.nodeType once kind)
  | instruction kind text next => exact fine_step (.inr kind) (.nodeType once kind)
  | target kind text kind' =>
    exact (fine_step (.inr kind) (.nodeType once kind)).trans (fine_plain kind' (by decide))

theorem StepHead.fine_iff {a : Axis} {test : NodeTest} (h : StepHead a test ts us) :
    Fine functions leads [] ts ↔ Fine functions false [] us := by
  obtain ⟨explicit, mid, haxis, htest⟩ := h
  obtain ⟨axes, once, hnone, hfine⟩ := haxis.fine_iff
  exact hfine.trans (htest.fine_iff once hnone)

/-- Whether an operand may begin in front of a phrase; in front of a step it may or may not. -/
def Phrase.Leads : Phrase → Bool → Prop
  | .expression _, leads | .operand _, leads => leads = true
  | .step _, _ => True
  | .chain _, leads | .arguments _, leads | .steps _, leads | .predicates _, leads => leads = false

/-- In what is derived all steps and calls are as they must be. -/
theorem Derives.fine_iff {p : Phrase} (h : Derives functions p ts us) :
    ∀ {leads}, p.Leads leads → (Fine functions leads [] ts ↔ Fine functions false [] us) := by
  induction h with
  | expression left more ihLeft ihMore =>
    rintro _ rfl
    exact (ihLeft rfl).trans (ihMore rfl)
  | noOperator next =>
    rintro _ rfl
    exact Iff.rfl
  | operator found right more ihRight ihMore =>
    rintro _ rfl
    obtain ⟨kind, -⟩ := operator?_eq_some.1 found
    exact (fine_leading (.inl kind)).trans ((ihRight rfl).trans (ihMore rfl))
  | string kind =>
    rintro _ rfl
    exact fine_plain kind (by decide)
  | number kind value =>
    rintro _ rfl
    exact fine_plain kind (by decide)
  | variableName kind conditions more ihConditions ihMore =>
    rintro _ rfl
    exact (fine_plain kind (by decide)).trans ((ihConditions rfl).trans (ihMore rfl))
  | call kind inside allowed conditions more ihInside ihConditions ihMore =>
    rintro _ rfl
    refine (fine_call kind (.call kind) rfl inside.argumentCount allowed).trans ?_
    exact (ihInside rfl).trans ((ihConditions rfl).trans (ihMore rfl))
  | prefixedCall kind kind' inside allowed conditions more ihInside ihConditions ihMore =>
    rintro _ rfl
    refine (fine_mark (.inr (.inr kind))).trans ?_
    refine (fine_call kind' (.prefixedCall kind kind') rfl inside.argumentCount allowed).trans ?_
    exact (ihInside rfl).trans ((ihConditions rfl).trans (ihMore rfl))
  | root kind kind' =>
    rintro _ rfl
    exact (fine_plain kind (by decide)).trans (fine_plain kind' (by decide))
  | rootSlash kind first more ihFirst ihMore =>
    rintro _ rfl
    exact (fine_plain kind (by decide)).trans ((ihFirst trivial).trans (ihMore rfl))
  | rootDescent kind first more ihFirst ihMore =>
    rintro _ rfl
    exact (fine_plain kind (by decide)).trans ((ihFirst trivial).trans (ihMore rfl))
  | path first more ihFirst ihMore =>
    rintro _ rfl
    exact (ihFirst trivial).trans (ihMore rfl)
  | noArgument kind =>
    rintro _ rfl
    exact fine_plain kind (by decide)
  | argument kind first more ihFirst ihMore =>
    rintro _ rfl
    exact (fine_leading (.inr (.inl kind))).trans ((ihFirst rfl).trans (ihMore rfl))
  | noStep kind =>
    rintro _ rfl
    exact fine_plain kind (by decide)
  | slash kind first more ihFirst ihMore =>
    rintro _ rfl
    exact (fine_plain kind (by decide)).trans ((ihFirst trivial).trans (ihMore rfl))
  | descent kind first more ihFirst ihMore =>
    rintro _ rfl
    exact (fine_plain kind (by decide)).trans ((ihFirst trivial).trans (ihMore rfl))
  | step head conditions ihConditions =>
    intro leads _
    exact head.fine_iff.trans (ihConditions rfl)
  | noPredicate next =>
    rintro _ rfl
    exact Iff.rfl
  | predicate kind first kind' more ihFirst ihMore =>
    rintro _ rfl
    refine (fine_leading (.inr (.inr kind))).trans ((ihFirst rfl).trans ?_)
    exact (fine_plain kind' (by decide)).trans (ihMore rfl)

end Fine

theorem StepHead.complete {a : Axis} {test : NodeTest} {ts us : List Token}
    (h : StepHead a test ts us) (hus : Complete us) : Complete ts := by
  obtain ⟨explicit, mid, haxis, htest⟩ := h
  have hmid : Complete mid := by
    cases htest with
    | name kind head => exact hus.of_kind kind nofun
    | nameSpace kind kind' => exact (hus.of_kind kind' nofun).of_kind kind nofun
    | nodeType kind plain => exact hus.of_kind kind nofun
    | instruction kind text next => exact hus.of_kind kind nofun
    | target kind text kind' => exact (hus.of_kind kind' nofun).of_kind kind nofun
  cases haxis with
  | axis kind found => exact hmid.of_kind kind nofun
  | attributeSign kind => exact hmid.of_kind kind nofun
  | nothing => exact hmid

/-- What is derived does not end with an operator. -/
theorem Derives.complete {functions : Registry} {p : Phrase} {ts us : List Token}
    (h : Derives functions p ts us) (hus : Complete us) : Complete ts := by
  induction h with
  | expression left more ihLeft ihMore => exact ihLeft (ihMore hus)
  | noOperator next => exact hus
  | operator found right more ihRight ihMore =>
    have hlt : Reads _ _ _ := isRead_of_derives right
    refine (ihRight (ihMore hus)).cons (.inr ?_)
    rintro rfl
    exact absurd hlt.length_lt (Nat.not_lt_zero _)
  | string kind => exact hus.of_kind kind nofun
  | number kind value => exact hus.of_kind kind nofun
  | variableName kind conditions more ihConditions ihMore =>
    exact (ihConditions (ihMore hus)).of_kind kind nofun
  | call kind inside allowed conditions more ihInside ihConditions ihMore =>
    exact (ihInside (ihConditions (ihMore hus))).of_kind kind nofun
  | prefixedCall kind kind' inside allowed conditions more ihInside ihConditions ihMore =>
    exact ((ihInside (ihConditions (ihMore hus))).of_kind kind' nofun).of_kind kind nofun
  | root kind kind' => exact (hus.of_kind kind' nofun).of_kind kind nofun
  | rootSlash kind first more ihFirst ihMore => exact (ihFirst (ihMore hus)).of_kind kind nofun
  | rootDescent kind first more ihFirst ihMore => exact (ihFirst (ihMore hus)).of_kind kind nofun
  | path first more ihFirst ihMore => exact ihFirst (ihMore hus)
  | noArgument kind => exact hus.of_kind kind nofun
  | argument kind first more ihFirst ihMore => exact (ihFirst (ihMore hus)).of_kind kind nofun
  | noStep kind => exact hus.of_kind kind nofun
  | slash kind first more ihFirst ihMore => exact (ihFirst (ihMore hus)).of_kind kind nofun
  | descent kind first more ihFirst ihMore => exact (ihFirst (ihMore hus)).of_kind kind nofun
  | step head conditions ihConditions => exact head.complete (ihConditions hus)
  | noPredicate next => exact hus
  | predicate kind first kind' more ihFirst ihMore =>
    exact (ihFirst ((ihMore hus).of_kind kind' nofun)).of_kind kind nofun

/-- The tokens of an expression are well formed. -/
theorem wellFormed_of_derives {functions : Registry} {e : Expr} {ts : List Token}
    (h : Derives functions (.expression e) ts []) : WellFormed functions ts := by
  have hfine : Fine functions true [] ts := (h.fine_iff rfl).2 fine_nil
  have hread : Reads _ _ _ := isRead_of_derives h
  refine ⟨?_, h.complete complete_nil, fun w hw => (hfine w hw).2, fun w hw => (hfine w hw).1⟩
  rintro rfl
  exact absurd hread.length_lt (Nat.not_lt_zero _)

/-! ### Words -/

/-- The text of a token is one that the lexer gives to tokens of the kind. -/
structure Worded (t : Token) : Prop where
  operator : t.kind = .operator → ∃ op : Operator, t.text = op.text
  axis : t.kind = .axis → ∃ a : Axis, t.text = a.name
  number : t.kind = .number → Lexer.IsNumeral t.text.toList
  nodeType : t.kind = .nodeType → t.text ∈ Lexer.nodeTypes

theorem worded_of_lexed {limit : Nat} {mode : Lexer.Mode} {es : List Lexer.Bracket}
    {ts : List Token} (h : Lexer.Lexed limit mode es ts) : ∀ t ∈ ts, Worded t := by
  induction h with
  | noOperand => exact List.forall_mem_nil _
  | noOperator => exact List.forall_mem_nil _
  | number word rest ih =>
    exact List.forall_mem_cons.2 ⟨⟨nofun, nofun, fun _ => word, nofun⟩, ih⟩
  | axis a rest ih => exact List.forall_mem_cons.2 ⟨⟨nofun, fun _ => ⟨a, rfl⟩, nofun, nofun⟩, ih⟩
  | nodeType word rest ih =>
    exact List.forall_mem_cons.2 ⟨⟨nofun, nofun, nofun, fun _ => word⟩, ih⟩
  | target word rest ih =>
    have hword : Lexer.targetedNodeType ∈ Lexer.nodeTypes := by decide
    refine List.forall_mem_cons.2 ⟨⟨nofun, nofun, nofun, fun _ => hword⟩, ?_⟩
    exact List.forall_mem_cons.2 ⟨⟨nofun, nofun, nofun, nofun⟩, ih⟩
  | operator op rest ih =>
    exact List.forall_mem_cons.2 ⟨⟨fun _ => ⟨op, rfl⟩, nofun, nofun, nofun⟩, ih⟩
  | path opens noNumber rest ih => exact ih
  | root opens rest ih =>
    refine List.forall_mem_cons.2 ⟨⟨nofun, nofun, nofun, nofun⟩, ?_⟩
    exact List.forall_mem_cons.2 ⟨⟨nofun, nofun, nofun, nofun⟩, ih⟩
  | emptyCall word other rest ih =>
    refine List.forall_mem_cons.2 ⟨⟨nofun, nofun, nofun, nofun⟩, ?_⟩
    exact List.forall_mem_cons.2 ⟨⟨nofun, nofun, nofun, nofun⟩, ih⟩
  | call word other depth rest ih =>
    refine List.forall_mem_cons.2 ⟨⟨nofun, nofun, nofun, nofun⟩, ?_⟩
    exact List.forall_mem_cons.2 ⟨⟨nofun, nofun, nofun, nofun⟩, ih⟩
  | _ => exact List.forall_mem_cons.2 ⟨⟨nofun, nofun, nofun, nofun⟩, ‹_›⟩

/-- What is written like a number has a value. -/
theorem exists_ofUnsigned? {w : List Char} (h : Lexer.IsNumeral w) :
    ∃ x, Number.ofUnsigned? false w = some x := by
  obtain ⟨p, hp⟩ := h.exists_splitPoint?
  exact ⟨_, by rw [Number.ofUnsigned?, hp, Option.map_some]⟩

/-! ### What meets the demands is derived -/

open Lexer (Rule Generates)

theorem notNext_of_kind {t : Token} {k k' : Token.Kind} (kind : t.kind = k) (hk : k ≠ k')
    (us : List Token) : NotNext (·.kind = k') (t :: us) := by
  intro u hu hu'
  have hu : t = u := by simpa using hu
  exact hk (kind.symm.trans (hu ▸ hu'))

theorem notNext_predicates {ps us : List Token} {k : Token.Kind} (h : Generates .predicates ps)
    (hk : .predicateStart ≠ k) (hus : NotNext (·.kind = k) us) :
    NotNext (·.kind = k) (ps ++ us) := by
  cases h with
  | noPredicate => exact hus
  | predicates first more =>
    cases first with
    | predicate kind inside kind' => exact notNext_of_kind kind hk _

theorem notNext_rest {ys : List Token} {t : Token} {k : Token.Kind} (h : Generates .rest ys)
    (kind : t.kind = .pathEnd) (hk : k ∉ [.slash, .descent, .pathEnd]) (us : List Token) :
    NotNext (·.kind = k) (ys ++ t :: us) := by
  simp only [List.mem_cons, List.not_mem_nil, or_false, not_or] at hk
  cases h with
  | noStep => exact notNext_of_kind kind (Ne.symm hk.2.2) us
  | further kind' next conditions more =>
    rcases kind' with kind' | kind'
    · exact notNext_of_kind kind' (Ne.symm hk.1) _
    · exact notNext_of_kind kind' (Ne.symm hk.2.1) _

theorem notNext_arguments {ys : List Token} {k : Token.Kind} (h : Generates .arguments ys)
    (hk : .argument ≠ k) (us : List Token) : NotNext (·.kind = k) (ys ++ us) := by
  cases h with
  | argument kind inside => exact notNext_of_kind kind hk _
  | arguments kind inside more => exact notNext_of_kind kind hk _

/-! ### Steps that meet the demands -/

/-- The beginning of an operand or of a further step has been read: the head of a step, or else a
primary expression that predicates and steps may follow. -/
inductive Begun (functions : Registry) (leads : Bool) (ts us : List Token) : Prop
  | head {a test} (head : StepHead a test ts us)
  | primary {e} (leading : leads = true) (more : ∀ ps ss vs ws,
    Derives functions (.predicates ps) us vs → Derives functions (.steps ss) vs ws →
    Derives functions (.operand (narrowed e ps ss)) ts ws)

section Begun

variable {functions : Registry} {leads : Bool} {axes marks ts us : List Token} {t u : Token}
  {n : Nat}

theorem exists_writtenAxis (once : AtMostOneAxis axes) (hw : ∀ t ∈ axes, Worded t)
    (ts : List Token) :
    ∃ explicit, WrittenAxis explicit (axes ++ ts) ts ∧ (axes = [] → explicit = none) := by
  cases once with
  | none => exact ⟨none, .nothing, fun _ => rfl⟩
  | @one t kind =>
    rcases kind with kind | kind
    · obtain ⟨a, ha⟩ := (hw t List.mem_cons_self).axis kind
      exact ⟨some a, .axis kind (ha ▸ Axis.ofName?_name a), nofun⟩
    · exact ⟨_, .attributeSign kind, nofun⟩

theorem exists_namedStep {explicit : Option Axis} {text : String}
    (h : text = "." ∨ text = ".." → explicit = none) :
    ∃ a test, namedStep explicit text = .ok (a, test) := by
  unfold namedStep
  split
  · rename_i htext
    rw [h htext]
    exact ⟨_, _, rfl⟩
  · exact ⟨_, _, rfl⟩

theorem begun_name (kind : t.kind = .name) (legal : WrittenStep.Legal ⟨leads, marks, t, n⟩)
    (hw : ∀ m ∈ marks, Worded m) : Begun functions leads (marks ++ t :: us) us := by
  cases legal with
  | name once kind alone =>
    obtain ⟨explicit, haxis, hnone⟩ := exists_writtenAxis once hw (t :: us)
    obtain ⟨a, test, hhead⟩ := exists_namedStep fun htext => hnone (alone htext)
    exact .head ⟨explicit, _, haxis, .name kind hhead⟩
  | @prefixedName _ axes space _ _ once kind kind' =>
    have hw : ∀ m ∈ axes, Worded m := fun m hm => hw m (List.mem_append_left _ hm)
    obtain ⟨explicit, haxis, -⟩ := exists_writtenAxis once hw (space :: t :: us)
    rw [List.append_assoc]
    exact .head ⟨explicit, _, haxis, .nameSpace kind kind'⟩
  | call kind' => simp [kind] at kind'
  | prefixedCall _ kind' => simp [kind] at kind'
  | nodeType once kind' => simp [kind] at kind'

theorem once_of_nodeType (kind : t.kind = .nodeType)
    (legal : WrittenStep.Legal ⟨leads, marks, t, n⟩) : AtMostOneAxis marks := by
  cases legal with
  | nodeType once kind => exact once
  | call kind' => simp [kind] at kind'
  | prefixedCall _ kind' => simp [kind] at kind'
  | name _ kind' _ => simp [kind] at kind'
  | prefixedName _ _ kind' => simp [kind] at kind'

theorem begun_nodeType (kind : t.kind = .nodeType)
    (legal : WrittenStep.Legal ⟨leads, marks, t, n⟩) (hw : ∀ m ∈ marks, Worded m)
    (hword : t.text ∈ Lexer.nodeTypes) (next : NotNext (·.kind = .target) us) :
    Begun functions leads (marks ++ t :: us) us := by
  obtain ⟨explicit, haxis, -⟩ := exists_writtenAxis (once_of_nodeType kind legal) hw (t :: us)
  have hplain : ∀ test, (t.text, test) ∈ plainNodeTypes →
      Begun functions leads (marks ++ t :: us) us :=
    fun test htest => .head ⟨explicit, _, haxis, .nodeType kind htest⟩
  simp only [Lexer.nodeTypes, List.mem_cons, List.not_mem_nil, or_false] at hword
  rcases hword with hword | hword | hword | hword
  · exact hplain .comment (by simp [plainNodeTypes, hword])
  · exact hplain .text (by simp [plainNodeTypes, hword])
  · exact .head ⟨explicit, _, haxis, .instruction kind hword next⟩
  · exact hplain .node (by simp [plainNodeTypes, hword])

theorem begun_target (kind : t.kind = .nodeType)
    (legal : WrittenStep.Legal ⟨leads, marks, t, n⟩) (hw : ∀ m ∈ marks, Worded m)
    (text : t.text = Lexer.targetedNodeType) (kind' : u.kind = .target) :
    Begun functions leads (marks ++ t :: u :: us) us := by
  obtain ⟨explicit, haxis, -⟩ :=
    exists_writtenAxis (once_of_nodeType kind legal) hw (t :: u :: us)
  exact .head ⟨explicit, _, haxis, .target kind text kind'⟩

theorem begun_call {es : List Expr} (kind : t.kind = .call)
    (legal : WrittenStep.Legal ⟨leads, marks, t, argumentCount 0 ts⟩)
    (allowed : WrittenStep.Allowed functions ⟨leads, marks, t, argumentCount 0 ts⟩)
    (inside : Derives functions (.arguments es) ts us) :
    Begun functions leads (marks ++ t :: ts) us := by
  have allowed : functions.check _ es.length = .ok () := inside.argumentCount ▸ allowed kind
  cases legal with
  | call kind =>
    exact .primary rfl fun ps ss vs ws hps hss => .call kind inside allowed hps hss
  | prefixedCall kind kind' =>
    exact .primary rfl fun ps ss vs ws hps hss => .prefixedCall kind kind' inside allowed hps hss
  | name _ kind' _ => simp [kind] at kind'
  | prefixedName _ _ kind' => simp [kind] at kind'
  | nodeType once kind' => simp [kind] at kind'

end Begun

/-! ### Whatever is generated and meets the demands is derived -/

/-- What is derived from the tokens of a rule that meet the demands. -/
def Readable (functions : Registry) : Rule → List Token → Prop
  | .stream, _ => True
  | .nested, xs => ∀ us, NotNext (·.kind = .operator) us → Fine functions true [] (xs ++ us) →
    ∃ e, Derives functions (.expression e) (xs ++ us) us
  | .operators, xs => ∀ us, NotNext (·.kind = .operator) us → Fine functions false [] (xs ++ us) →
    ∃ ops, Derives functions (.chain ops) (xs ++ us) us
  | .operand, xs => ∀ us, Fine functions true [] (xs ++ us) →
    ∃ e, Derives functions (.operand e) (xs ++ us) us
  | .path, xs => ∀ t us, t.kind = .pathEnd → Fine functions true [] (xs ++ t :: us) →
    ∃ e, Derives functions (.operand e) (xs ++ t :: us) us
  | .rest, xs => ∀ t us, t.kind = .pathEnd → Fine functions false [] (xs ++ t :: us) →
    ∃ ss, Derives functions (.steps ss) (xs ++ t :: us) us
  | .step, xs => ∀ leads marks us, (∀ m ∈ marks, Worded m) → NotNext (·.kind = .target) us →
    Fine functions leads marks (xs ++ us) →
    Begun functions leads (marks ++ (xs ++ us)) us ∧ Fine functions false [] us
  | .arguments, xs => ∀ t us, t.kind = .callEnd → Fine functions false [] (xs ++ t :: us) →
    ∃ es, Derives functions (.arguments es) (xs ++ t :: us) us
  | .predicate, xs => ∀ us, Fine functions false [] (xs ++ us) → ∃ e, Fine functions false [] us ∧
    ∀ es vs, Derives functions (.predicates es) us vs →
      Derives functions (.predicates (e :: es)) (xs ++ us) vs
  | .predicates, xs => ∀ us, NotNext (·.kind = .predicateStart) us →
    Fine functions false [] (xs ++ us) → ∃ es, Derives functions (.predicates es) (xs ++ us) us

section Readable

variable {functions : Registry} {xs ps ys us : List Token} {t u : Token}

/-- Predicates and further steps up to the end of a path. -/
theorem exists_trail (hys : Generates .rest ys)
    (conditions : Readable functions .predicates ps) (more : Readable functions .rest ys)
    (kind : t.kind = .pathEnd) (hfine : Fine functions false [] (ps ++ (ys ++ t :: us))) :
    ∃ es ss mid, Derives functions (.predicates es) (ps ++ (ys ++ t :: us)) mid ∧
      Derives functions (.steps ss) mid us := by
  obtain ⟨es, hes⟩ := conditions _ (notNext_rest hys kind (by decide) us) hfine
  obtain ⟨ss, hss⟩ := more t us kind ((hes.fine_iff rfl).1 hfine)
  exact ⟨es, ss, _, hes, hss⟩

/-- Steps up to the end of a path, or else an operand if one begins with them. -/
theorem exists_steps {leads : Bool} (hps : Generates .predicates ps) (hys : Generates .rest ys)
    (first : Readable functions .step xs) (conditions : Readable functions .predicates ps)
    (more : Readable functions .rest ys) (kind : t.kind = .pathEnd)
    (hfine : Fine functions leads [] (xs ++ (ps ++ (ys ++ t :: us)))) :
    (∃ s ss mid, Derives functions (.step s) (xs ++ (ps ++ (ys ++ t :: us))) mid ∧
      Derives functions (.steps ss) mid us) ∨
    (leads = true ∧ ∃ e, Derives functions (.operand e) (xs ++ (ps ++ (ys ++ t :: us))) us) := by
  have hnext : NotNext (·.kind = .target) (ps ++ (ys ++ t :: us)) :=
    notNext_predicates hps (by decide) (notNext_rest hys kind (by decide) us)
  obtain ⟨hbegun, htrail⟩ := first leads [] _ (List.forall_mem_nil _) hnext hfine
  obtain ⟨es, ss, mid, hes, hss⟩ := exists_trail hys conditions more kind htrail
  cases hbegun with
  | head head => exact .inl ⟨_, ss, mid, .step head hes, hss⟩
  | primary leading more => exact .inr ⟨leading, _, more es ss mid us hes hss⟩

theorem readable_nested (first : Readable functions .operand xs)
    (more : Readable functions .operators ys) : Readable functions .nested (xs ++ ys) := by
  intro us next hfine
  rw [List.append_assoc] at hfine ⊢
  obtain ⟨e, he⟩ := first _ hfine
  obtain ⟨ops, hops⟩ := more us next ((he.fine_iff rfl).1 hfine)
  exact ⟨_, .expression he hops⟩

theorem readable_noOperator : Readable functions .operators [] := by
  intro us next hfine
  refine ⟨[], .noOperator fun t ht hop => next t ht ?_⟩
  obtain ⟨op, hop⟩ := Option.isSome_iff_exists.1 hop
  exact (operator?_eq_some.1 hop).1

theorem readable_operator (kind : t.kind = .operator) (word : Worded t)
    (right : Readable functions .operand xs) (more : Readable functions .operators ys) :
    Readable functions .operators (t :: (xs ++ ys)) := by
  intro us next hfine
  obtain ⟨op, hop⟩ := word.operator kind
  rw [List.cons_append, List.append_assoc] at hfine ⊢
  have hfine := (fine_leading (.inl kind)).1 hfine
  obtain ⟨e, he⟩ := right _ hfine
  obtain ⟨ops, hops⟩ := more us next ((he.fine_iff rfl).1 hfine)
  exact ⟨_, .operator (operator?_eq_some.2 ⟨kind, hop⟩) he hops⟩

theorem readable_string (kind : t.kind = .string) : Readable functions .operand [t] :=
  fun _ _ => ⟨_, .string kind⟩

theorem readable_number (kind : t.kind = .number) (word : Worded t) :
    Readable functions .operand [t] := by
  intro us hfine
  obtain ⟨x, hx⟩ := exists_ofUnsigned? (word.number kind)
  exact ⟨_, .number kind hx⟩

theorem readable_path (kind : t.kind = .pathEnd) (inside : Readable functions .path xs) :
    Readable functions .operand (xs ++ [t]) := by
  intro us hfine
  rw [List.append_assoc] at hfine ⊢
  exact inside _ us kind hfine

theorem readable_root (kind : t.kind = .rootSlash) : Readable functions .path [t] :=
  fun _ _ kind' _ => ⟨_, .root kind kind'⟩

theorem readable_variable (kind : t.kind = .variable) (hys : Generates .rest ys)
    (conditions : Readable functions .predicates ps) (more : Readable functions .rest ys) :
    Readable functions .path (t :: (ps ++ ys)) := by
  intro u us kind' hfine
  rw [List.cons_append, List.append_assoc] at hfine ⊢
  obtain ⟨es, ss, mid, hes, hss⟩ :=
    exists_trail hys conditions more kind' ((fine_plain kind (by decide)).1 hfine)
  exact ⟨_, .variableName kind hes hss⟩

theorem readable_relative (hps : Generates .predicates ps) (hys : Generates .rest ys)
    (first : Readable functions .step xs) (conditions : Readable functions .predicates ps)
    (more : Readable functions .rest ys) : Readable functions .path (xs ++ (ps ++ ys)) := by
  intro t us kind hfine
  rw [List.append_assoc, List.append_assoc] at hfine ⊢
  rcases exists_steps hps hys first conditions more kind hfine with
    ⟨s, ss, mid, hs, hss⟩ | ⟨-, e, he⟩
  · exact ⟨_, .path hs hss⟩
  · exact ⟨e, he⟩

/-- Where no operand begins, the steps are steps of the path. -/
theorem exists_further (hps : Generates .predicates ps) (hys : Generates .rest ys)
    (first : Readable functions .step xs) (conditions : Readable functions .predicates ps)
    (more : Readable functions .rest ys) (kind : t.kind = .pathEnd)
    (hfine : Fine functions false [] (xs ++ (ps ++ (ys ++ t :: us)))) :
    ∃ s ss mid, Derives functions (.step s) (xs ++ (ps ++ (ys ++ t :: us))) mid ∧
      Derives functions (.steps ss) mid us :=
  (exists_steps hps hys first conditions more kind hfine).resolve_right
    fun h => absurd h.1 Bool.false_ne_true

theorem readable_absolute (kind : t.kind = .rootSlash ∨ t.kind = .rootDescent)
    (hps : Generates .predicates ps) (hys : Generates .rest ys)
    (first : Readable functions .step xs) (conditions : Readable functions .predicates ps)
    (more : Readable functions .rest ys) : Readable functions .path (t :: (xs ++ (ps ++ ys))) := by
  intro u us kind' hfine
  rw [List.cons_append, List.append_assoc, List.append_assoc] at hfine ⊢
  rcases kind with kind | kind
  · obtain ⟨s, ss, mid, hs, hss⟩ := exists_further hps hys first conditions more kind'
      ((fine_plain kind (by decide)).1 hfine)
    exact ⟨_, .rootSlash kind hs hss⟩
  · obtain ⟨s, ss, mid, hs, hss⟩ := exists_further hps hys first conditions more kind'
      ((fine_plain kind (by decide)).1 hfine)
    exact ⟨_, .rootDescent kind hs hss⟩

theorem readable_noStep : Readable functions .rest [] :=
  fun _ _ kind _ => ⟨[], .noStep kind⟩

theorem readable_further (kind : t.kind = .slash ∨ t.kind = .descent)
    (hps : Generates .predicates ps) (hys : Generates .rest ys)
    (next : Readable functions .step xs) (conditions : Readable functions .predicates ps)
    (more : Readable functions .rest ys) : Readable functions .rest (t :: (xs ++ (ps ++ ys))) := by
  intro u us kind' hfine
  rw [List.cons_append, List.append_assoc, List.append_assoc] at hfine ⊢
  rcases kind with kind | kind
  · obtain ⟨s, ss, mid, hs, hss⟩ := exists_further hps hys next conditions more kind'
      ((fine_plain kind (by decide)).1 hfine)
    exact ⟨_, .slash kind hs hss⟩
  · obtain ⟨s, ss, mid, hs, hss⟩ := exists_further hps hys next conditions more kind'
      ((fine_plain kind (by decide)).1 hfine)
    exact ⟨_, .descent kind hs hss⟩

theorem readable_mark (kind : t.kind = .axis ∨ t.kind = .attributeSign ∨ t.kind = .nameSpace)
    (word : Worded t) (more : Readable functions .step xs) :
    Readable functions .step (t :: xs) := by
  intro leads marks us hmarks next hfine
  have hmarks : ∀ m ∈ marks ++ [t], Worded m :=
    List.forall_mem_append.2 ⟨hmarks, List.forall_mem_singleton.2 word⟩
  have hstep := more leads _ us hmarks next ((fine_mark kind).1 hfine)
  rwa [List.append_assoc] at hstep

theorem readable_name (kind : t.kind = .name) : Readable functions .step [t] := by
  intro leads marks us hmarks next hfine
  obtain ⟨⟨legal, -⟩, hus⟩ := (fine_head (.inl kind)).1 hfine
  exact ⟨begun_name kind legal hmarks, hus⟩

theorem readable_nodeType (kind : t.kind = .nodeType) (word : Worded t) :
    Readable functions .step [t] := by
  intro leads marks us hmarks next hfine
  obtain ⟨⟨legal, -⟩, hus⟩ := (fine_head (.inr (.inl kind))).1 hfine
  exact ⟨begun_nodeType kind legal hmarks (word.nodeType kind) next, hus⟩

theorem readable_target (kind : t.kind = .nodeType) (text : t.text = Lexer.targetedNodeType)
    (kind' : u.kind = .target) : Readable functions .step [t, u] := by
  intro leads marks us hmarks next hfine
  obtain ⟨⟨legal, -⟩, hus⟩ := (fine_head (.inr (.inl kind))).1 hfine
  exact ⟨begun_target kind legal hmarks text kind', (fine_plain kind' (by decide)).1 hus⟩

theorem readable_emptyCall (kind : t.kind = .call) (kind' : u.kind = .callEnd) :
    Readable functions .step [t, u] := by
  intro leads marks us hmarks next hfine
  obtain ⟨⟨legal, allowed⟩, hus⟩ := (fine_head (.inr (.inr kind))).1 hfine
  exact ⟨begun_call kind legal allowed (.noArgument kind'), (fine_plain kind' (by decide)).1 hus⟩

theorem readable_call (kind : t.kind = .call) (inside : Readable functions .arguments xs)
    (kind' : u.kind = .callEnd) : Readable functions .step (t :: (xs ++ [u])) := by
  intro leads marks us hmarks next hfine
  rw [List.cons_append, List.append_assoc] at hfine ⊢
  obtain ⟨⟨legal, allowed⟩, hinside⟩ := (fine_head (.inr (.inr kind))).1 hfine
  obtain ⟨es, hes⟩ := inside _ us kind' hinside
  exact ⟨begun_call kind legal allowed hes, (hes.fine_iff rfl).1 hinside⟩

theorem readable_argument (kind : t.kind = .argument) (inside : Readable functions .nested xs) :
    Readable functions .arguments (t :: xs) := by
  intro u us kind' hfine
  obtain ⟨e, he⟩ := inside _ (notNext_of_kind kind' (by decide) us)
    ((fine_leading (.inr (.inl kind))).1 hfine)
  exact ⟨[e], .argument kind he (.noArgument kind')⟩

theorem readable_arguments (kind : t.kind = .argument) (hys : Generates .arguments ys)
    (inside : Readable functions .nested xs) (more : Readable functions .arguments ys) :
    Readable functions .arguments (t :: (xs ++ ys)) := by
  intro u us kind' hfine
  rw [List.cons_append, List.append_assoc] at hfine ⊢
  have hfine := (fine_leading (.inr (.inl kind))).1 hfine
  obtain ⟨e, he⟩ := inside _ (notNext_arguments hys (by decide) _) hfine
  obtain ⟨es, hes⟩ := more u us kind' ((he.fine_iff rfl).1 hfine)
  exact ⟨e :: es, .argument kind he hes⟩

theorem readable_predicate (kind : t.kind = .predicateStart)
    (inside : Readable functions .nested xs) (kind' : u.kind = .predicateEnd) :
    Readable functions .predicate (t :: (xs ++ [u])) := by
  intro us hfine
  rw [List.cons_append, List.append_assoc] at hfine ⊢
  have hfine := (fine_leading (.inr (.inr kind))).1 hfine
  obtain ⟨e, he⟩ := inside _ (notNext_of_kind kind' (by decide) us) hfine
  have hus := (fine_plain kind' (by decide)).1 ((he.fine_iff rfl).1 hfine)
  exact ⟨e, hus, fun es vs hes => .predicate kind he kind' hes⟩

theorem readable_noPredicate : Readable functions .predicates [] :=
  fun _ next _ => ⟨[], .noPredicate next⟩

theorem readable_predicates (first : Readable functions .predicate xs)
    (more : Readable functions .predicates ys) : Readable functions .predicates (xs ++ ys) := by
  intro us next hfine
  rw [List.append_assoc] at hfine ⊢
  obtain ⟨e, hus, hfirst⟩ := first _ hfine
  obtain ⟨es, hes⟩ := more us next hus
  exact ⟨e :: es, hfirst es us hes⟩

/-- What is generated, from words that the lexer gives to tokens, is derived if it meets the
demands. -/
theorem readable_of_generates {rule : Rule} (h : Generates rule xs) (hw : ∀ t ∈ xs, Worded t) :
    Readable functions rule xs := by
  induction h with
  | empty => trivial
  | whole inside ih => trivial
  | dangling inside kind ih => trivial
  | nested first more ihFirst ihMore =>
    obtain ⟨hwFirst, hwMore⟩ := List.forall_mem_append.1 hw
    exact readable_nested (ihFirst hwFirst) (ihMore hwMore)
  | noOperator => exact readable_noOperator
  | operator kind right more ihRight ihMore =>
    obtain ⟨word, hw⟩ := List.forall_mem_cons.1 hw
    obtain ⟨hwRight, hwMore⟩ := List.forall_mem_append.1 hw
    exact readable_operator kind word (ihRight hwRight) (ihMore hwMore)
  | string kind => exact readable_string kind
  | number kind => exact readable_number kind (hw _ List.mem_cons_self)
  | path inside kind ih => exact readable_path kind (ih (List.forall_mem_append.1 hw).1)
  | root kind => exact readable_root kind
  | variableName kind conditions more ihConditions ihMore =>
    obtain ⟨hwConditions, hwMore⟩ := List.forall_mem_append.1 (List.forall_mem_cons.1 hw).2
    exact readable_variable kind more (ihConditions hwConditions) (ihMore hwMore)
  | relative first conditions more ihFirst ihConditions ihMore =>
    obtain ⟨hwFirst, hw⟩ := List.forall_mem_append.1 hw
    obtain ⟨hwConditions, hwMore⟩ := List.forall_mem_append.1 hw
    exact readable_relative conditions more (ihFirst hwFirst) (ihConditions hwConditions)
      (ihMore hwMore)
  | absolute kind first conditions more ihFirst ihConditions ihMore =>
    obtain ⟨hwFirst, hw⟩ := List.forall_mem_append.1 (List.forall_mem_cons.1 hw).2
    obtain ⟨hwConditions, hwMore⟩ := List.forall_mem_append.1 hw
    exact readable_absolute kind conditions more (ihFirst hwFirst) (ihConditions hwConditions)
      (ihMore hwMore)
  | noStep => exact readable_noStep
  | further kind next conditions more ihNext ihConditions ihMore =>
    obtain ⟨hwNext, hw⟩ := List.forall_mem_append.1 (List.forall_mem_cons.1 hw).2
    obtain ⟨hwConditions, hwMore⟩ := List.forall_mem_append.1 hw
    exact readable_further kind conditions more (ihNext hwNext) (ihConditions hwConditions)
      (ihMore hwMore)
  | mark kind more ih =>
    obtain ⟨word, hwMore⟩ := List.forall_mem_cons.1 hw
    exact readable_mark kind word (ih hwMore)
  | name kind => exact readable_name kind
  | nodeType kind => exact readable_nodeType kind (hw _ List.mem_cons_self)
  | target kind text kind' => exact readable_target kind text kind'
  | emptyCall kind kind' => exact readable_emptyCall kind kind'
  | call kind inside kind' ih =>
    have hwInside := (List.forall_mem_append.1 (List.forall_mem_cons.1 hw).2).1
    exact readable_call kind (ih hwInside) kind'
  | argument kind inside ih => exact readable_argument kind (ih (List.forall_mem_cons.1 hw).2)
  | arguments kind inside more ihInside ihMore =>
    obtain ⟨hwInside, hwMore⟩ := List.forall_mem_append.1 (List.forall_mem_cons.1 hw).2
    exact readable_arguments kind more (ihInside hwInside) (ihMore hwMore)
  | predicate kind inside kind' ih =>
    have hwInside := (List.forall_mem_append.1 (List.forall_mem_cons.1 hw).2).1
    exact readable_predicate kind (ih hwInside) kind'
  | noPredicate => exact readable_noPredicate
  | predicates first more ihFirst ihMore =>
    obtain ⟨hwFirst, hwMore⟩ := List.forall_mem_append.1 hw
    exact readable_predicates (ihFirst hwFirst) (ihMore hwMore)

end Readable

/-- Well-formed tokens of a text make an expression. -/
theorem exists_derives {functions : Registry} {limit : Nat} {ts : List Token}
    (h : Lexer.Lexed limit .operand [] ts) (hts : WellFormed functions ts) :
    ∃ e, Derives functions (.expression e) ts [] := by
  have hfine : Fine functions true [] ts := fun w hw => ⟨hts.legal w hw, hts.allowed w hw⟩
  cases Lexer.generates_of_lexed h with
  | empty => exact absurd rfl hts.ne_nil
  | whole inside =>
    obtain ⟨e, he⟩ := readable_of_generates inside (worded_of_lexed h) [] (notNext_nil _)
      (by rwa [List.append_nil])
    exact ⟨e, by rwa [List.append_nil] at he⟩
  | dangling inside kind =>
    exact absurd kind (hts.complete _ (by simp))

end Parser

/-! ### Whole texts -/

/-- A text is parsed exactly if it can be broken into tokens, one at least and the last of them no
operator, where every call is allowed and every step is written as a step may be. -/
theorem parse_accepts_iff {functions : Registry} {limit : Nat} {s : String} :
    (∃ e, parse functions limit s = .ok e) ↔
      ∃ ts, tokenize limit s = .ok ts ∧ WellFormed functions ts := by
  constructor
  · rintro ⟨e, he⟩
    obtain ⟨ts, hts, hderives⟩ := parse_eq_ok.1 he
    exact ⟨ts, hts, Parser.wellFormed_of_derives hderives⟩
  · rintro ⟨ts, hts, hformed⟩
    have hlexed : Lexer.Lexed limit .operand [] ts := Lexer.lexed_of_run (Lexer.start s) ts hts
    obtain ⟨e, he⟩ := Parser.exists_derives hlexed hformed
    exact ⟨e, parse_eq_ok.2 ⟨ts, hts, he⟩⟩

end XPath
