import XPath.Builtin
import XPath.Proofs.Expr.Print
import XPath.Proofs.Expr.Rendering

/-!
# Abbreviations expanded

The tokens of a text can be replaced, phrase by phrase, by tokens in which nothing is abbreviated.
The lexer may emit these as well, the grammar derives the same expression from them, and they are
written as that expression is printed.  So an expression that was parsed is parsed again from its
printed form.

* `Keeps`: a token after which other tokens may follow as well;
* `Stands`: tokens that stand for a phrase wherever they are followed by certain others;
* `expands_of_derives`: every phrase that was derived has such tokens;
* `parse_print`: a parsed expression is parsed again from its printed form.
-/

namespace XPath
namespace Parser

open Lexer

/-! ### Tokens that are kept -/

/-- After the token others follow in the second mode, and whatever may follow there may follow it.
-/
def Keeps (limit : Nat) (m : Mode) (es : List Bracket) (t : Token) (m' : Mode) (es' : List Bracket)
    (ts : List Token) : Prop :=
  Lexed limit m' es' ts ∧ ∀ us, Lexed limit m' es' us → Lexed limit m es (t :: us)

def stepKinds : List Token.Kind :=
  [.axis, .nameSpace, .attributeSign, .name, .nodeType, .call]

section Keeps

variable {limit : Nat} {es : List Bracket} {t u : Token} {ts : List Token}

theorem token_eq {kind : Token.Kind} {s : String} (hkind : t.kind = kind) (htext : t.text = s) :
    t = ⟨kind, s, t.offset⟩ := by
  subst hkind htext
  rfl

theorem notNext_target (h : targetFollows ts = false) : NotNext (·.kind = .target) ts := by
  intro u hu hkind
  cases ts with
  | nil => simp at hu
  | cons t ts =>
    have hu : t = u := by simpa using hu
    simp [targetFollows, hu, hkind] at h

theorem kind_of_lexed_step (h : Lexed limit .step es (t :: ts)) : t.kind ∈ stepKinds := by
  cases h <;> simp [stepKinds]

theorem keeps_string (h : Lexed limit .operand es (t :: ts)) (kind : t.kind = .string) :
    Keeps limit .operand es t .operator es ts ∧ IsLiteral t.text.toList := by
  cases h with
  | string word rest => exact ⟨⟨rest, fun us hus => .string word hus⟩, word⟩
  | path _ _ rest => exact absurd (kind_of_lexed_step rest) (by simp [stepKinds, kind])
  | _ => simp at kind

theorem lexed_of_number (h : Lexed limit .operand es (t :: ts)) (kind : t.kind = .number) :
    Lexed limit .operator es ts := by
  cases h with
  | number word rest => exact rest
  | path _ _ rest => exact absurd (kind_of_lexed_step rest) (by simp [stepKinds, kind])
  | _ => simp at kind

theorem keeps_variable (h : Lexed limit .operand es (t :: ts)) (kind : t.kind = .variable) :
    Keeps limit .operand es t .trail es ts := by
  cases h with
  | variableName word rest => exact ⟨rest, fun us hus => .variableName word hus⟩
  | path _ _ rest => exact absurd (kind_of_lexed_step rest) (by simp [stepKinds, kind])
  | _ => simp at kind

theorem lexed_of_rootDescent (h : Lexed limit .operand es (t :: ts))
    (kind : t.kind = .rootDescent) : Lexed limit .step es ts := by
  cases h with
  | rootDescent rest => exact rest
  | path _ _ rest => exact absurd (kind_of_lexed_step rest) (by simp [stepKinds, kind])
  | _ => simp at kind

theorem lexed_of_root (h : Lexed limit .operand es (t :: u :: ts)) (kind : t.kind = .rootSlash)
    (kind' : u.kind = .pathEnd) : Lexed limit .operator es ts ∧ opensStep ts = false := by
  cases h with
  | root opens rest => exact ⟨rest, opens⟩
  | rootSlash _ rest => exact absurd (kind_of_lexed_step rest) (by simp [stepKinds, kind'])
  | path _ _ rest => exact absurd (kind_of_lexed_step rest) (by simp [stepKinds, kind])
  | _ => simp at kind

theorem lexed_of_rootSlash (h : Lexed limit .operand es (t :: ts)) (kind : t.kind = .rootSlash)
    (begins : beginsStep ts) : Lexed limit .step es ts := by
  cases h with
  | rootSlash _ rest => exact rest
  | root => simp [beginsStep] at begins
  | path _ _ rest => exact absurd (kind_of_lexed_step rest) (by simp [stepKinds, kind])
  | _ => simp at kind

/-- Tokens that begin like a step or a call are those of a path without a slash in front. -/
theorem lexed_of_path (h : Lexed limit .operand es (t :: ts)) (kind : t.kind ∈ stepKinds) :
    Lexed limit .step es (t :: ts) ∧ opensStep (t :: ts) ∧ opensNumber (t :: ts) = false := by
  cases h with
  | path opens noNumber rest => exact ⟨rest, opens, noNumber⟩
  | _ => simp [stepKinds] at kind

theorem lexed_of_beginsStep (h : Lexed limit .operand es ts) (begins : beginsStep ts) :
    Lexed limit .step es ts := by
  cases ts with
  | nil => exact absurd begins id
  | cons t ts =>
    refine (lexed_of_path h ?_).1
    rcases begins with kind | kind | kind | kind | ⟨kind, -⟩ <;> simp [stepKinds, kind]

theorem opensStep_congr {us : List Token} (h : SameHead ts us) : opensStep us = opensStep ts := by
  cases ts with
  | nil => rw [h.nil_left]
  | cons t ts =>
    obtain ⟨t', us, rfl, -, htext⟩ := h.cons_left
    rw [opensStep_cons, opensStep_cons, htext]

theorem keeps_operator {op : Operator} (h : Lexed limit .operator es (t :: ts))
    (found : operator? t = some op) :
    Keeps limit .operator es t .operand es ts ∧ t.kind = .operator ∧ t.text = op.text := by
  unfold operator? at found
  split at found
  · rename_i kind
    refine ⟨?_, kind, text_of_ofText? found⟩
    cases h with
    | operator op rest => exact ⟨rest, fun us hus => .operator op hus⟩
    | _ => simp at kind
  · simp at found

theorem keeps_pathEnd (h : Lexed limit .trail es (t :: ts)) (kind : t.kind = .pathEnd) :
    Keeps limit .trail es t .operator es ts := by
  cases h with
  | pathEnd rest => exact ⟨rest, fun us hus => .pathEnd hus⟩
  | _ => simp at kind

theorem keeps_slash (h : Lexed limit .trail es (t :: ts)) (kind : t.kind = .slash) :
    Keeps limit .trail es t .step es ts := by
  cases h with
  | slash rest => exact ⟨rest, fun us hus => .slash hus⟩
  | _ => simp at kind

theorem lexed_of_descent (h : Lexed limit .trail es (t :: ts)) (kind : t.kind = .descent) :
    Lexed limit .step es ts := by
  cases h with
  | descent rest => exact rest
  | _ => simp at kind

theorem keeps_predicateStart (h : Lexed limit .trail es (t :: ts))
    (kind : t.kind = .predicateStart) :
    Keeps limit .trail es t .operand (.predicate :: es) ts := by
  cases h with
  | predicateStart depth rest => exact ⟨rest, fun us hus => .predicateStart depth hus⟩
  | _ => simp at kind

theorem keeps_predicateEnd (h : Lexed limit .operator (.predicate :: es) (t :: ts))
    (kind : t.kind = .predicateEnd) :
    Keeps limit .operator (.predicate :: es) t .trail es ts := by
  cases h with
  | predicateEnd rest => exact ⟨rest, fun us hus => .predicateEnd hus⟩
  | _ => simp at kind

theorem keeps_nameSpace (h : Lexed limit .step es (t :: ts)) (kind : t.kind = .nameSpace) :
    Keeps limit .step es t .step es ts := by
  cases h with
  | nameSpace word rest => exact ⟨rest, fun us hus => .nameSpace word hus⟩
  | _ => simp at kind

theorem keeps_name (h : Lexed limit .step es (t :: ts)) (kind : t.kind = .name) :
    Keeps limit .step es t .trail es ts := by
  cases h with
  | name word rest => exact ⟨rest, fun us hus => .name word hus⟩
  | _ => simp at kind

/-- A node type is closed at once unless a literal follows it. -/
theorem keeps_nodeType (h : Lexed limit .step es (t :: ts)) (kind : t.kind = .nodeType)
    (next : t.text ≠ targetedNodeType ∨ NotNext (·.kind = .target) ts) :
    Keeps limit .step es t .trail es ts := by
  cases h with
  | nodeType word rest => exact ⟨rest, fun us hus => .nodeType word hus⟩
  | target word rest =>
    rcases next with next | next
    · exact absurd rfl next
    · exact absurd rfl (next _ rfl)
  | _ => simp at kind

theorem keeps_target (h : Lexed limit .step es (t :: u :: ts)) (kind : t.kind = .nodeType)
    (kind' : u.kind = .target) :
    Lexed limit .trail es ts ∧
      ∀ us, Lexed limit .trail es us → Lexed limit .step es (t :: u :: us) := by
  cases h with
  | target word rest => exact ⟨rest, fun us hus => .target word hus⟩
  | nodeType word rest => cases rest <;> simp at kind'
  | _ => simp at kind

end Keeps

/-! ### Heads of steps -/

section Heads

variable {limit : Nat} {es : List Bracket} {explicit : Option Axis} {a : Axis} {test : NodeTest}
  {ts us : List Token}

theorem lexed_of_writtenAxis (h : WrittenAxis explicit ts us) (hl : Lexed limit .step es ts) :
    Lexed limit .step es us := by
  cases h with
  | axis kind found =>
    cases hl with
    | axis a rest => exact rest
    | _ => simp at kind
  | attributeSign kind =>
    cases hl with
    | attributeSign rest => exact rest
    | _ => simp at kind
  | nothing => exact hl

/-- A name stands for itself behind its axis, unless it abbreviates a step. -/
theorem namedStep_cases {s : String} (h : namedStep explicit s = .ok (a, test)) :
    test = .node ∨ test.chars = s.toList ∧ namedStep (some a) s = .ok (a, test) := by
  unfold namedStep at h
  split at h
  · split at h
    · simp at h
    · cases h
      exact .inl rfl
  · rename_i hpoints
    cases h
    refine .inr ⟨?_, by rw [namedStep, if_neg hpoints]; rfl⟩
    split
    · rename_i hstar
      rw [hstar]
      rfl
    · rfl

def nodeToken : Token :=
  ⟨.nodeType, "node", 0⟩

theorem expands_node (a : Axis) (h : Lexed limit .trail es ts) :
    Lexed limit .step es (nodeToken :: ts) ∧ WrittenTest (some a) a .node (nodeToken :: ts) ts ∧
      writtenChars (nodeToken :: ts) = NodeTest.node.chars ++ writtenChars ts := by
  have hword : "node" ∈ nodeTypes := by decide
  have hplain : ("node", NodeTest.node) ∈ plainNodeTypes := by simp [plainNodeTypes]
  refine ⟨.nodeType hword h, .nodeType rfl hplain, ?_⟩
  rw [nodeToken, writtenChars_nodeType _ _ _ (targetFollows_of_lexed h)]
  simp [NodeTest.chars, typeChars]

/-- Tokens for a node test that has its axis before it. -/
theorem expands_test (h : WrittenTest explicit a test ts us) (hl : Lexed limit .step es ts) :
    Lexed limit .trail es us ∧ ∃ vs, ∀ rest, Lexed limit .trail es rest →
      Lexed limit .step es (vs ++ rest) ∧ WrittenTest (some a) a test (vs ++ rest) rest ∧
        writtenChars (vs ++ rest) = test.chars ++ writtenChars rest := by
  cases h with
  | @name t _ _ _ kind head =>
    obtain ⟨hrest, hkeeps⟩ := keeps_name hl kind
    refine ⟨hrest, ?_⟩
    -- one or two points stand for any node, which has to be written out behind an axis
    rcases namedStep_cases head with rfl | ⟨hchars, head⟩
    · exact ⟨[nodeToken], fun rest h => expands_node a h⟩
    · refine ⟨[t], fun rest h => ⟨hkeeps rest h, .name kind head, ?_⟩⟩
      obtain ⟨_, text, o⟩ := t
      cases kind
      rw [List.singleton_append, writtenChars_name, hchars]
  | @nameSpace t u _ kind kind' =>
    obtain ⟨hrest, hkeeps⟩ := keeps_nameSpace hl kind
    obtain ⟨hrest, hkeeps'⟩ := keeps_name hrest kind'
    refine ⟨hrest, [t, u], fun rest h => ⟨hkeeps _ (hkeeps' _ h), .nameSpace kind kind', ?_⟩⟩
    obtain ⟨_, text, o⟩ := t
    obtain ⟨_, text', o'⟩ := u
    cases kind
    cases kind'
    simp [NodeTest.chars]
  | @nodeType t _ _ kind plain =>
    have hother : t.text ≠ targetedNodeType := by
      intro heq
      simp [heq, plainNodeTypes, targetedNodeType] at plain
    obtain ⟨hrest, hkeeps⟩ := keeps_nodeType hl kind (.inl hother)
    refine ⟨hrest, [t], fun rest h => ⟨hkeeps rest h, .nodeType kind plain, ?_⟩⟩
    obtain ⟨_, text, o⟩ := t
    cases kind
    rw [List.singleton_append, writtenChars_nodeType _ _ _ (targetFollows_of_lexed h)]
    simp only [plainNodeTypes, List.mem_cons, Prod.mk.injEq, List.not_mem_nil, or_false] at plain
    rcases plain with ⟨rfl, rfl⟩ | ⟨rfl, rfl⟩ | ⟨rfl, rfl⟩ <;> simp [NodeTest.chars, typeChars]
  | @instruction t _ kind text next =>
    obtain ⟨hrest, hkeeps⟩ := keeps_nodeType hl kind (.inr next)
    refine ⟨hrest, [t], fun rest h => ?_⟩
    have htarget := targetFollows_of_lexed h
    refine ⟨hkeeps rest h, .instruction kind text (notNext_target htarget), ?_⟩
    obtain ⟨_, s, o⟩ := t
    cases kind
    cases text
    rw [List.singleton_append, writtenChars_nodeType _ _ _ htarget]
    simp [NodeTest.chars, typeChars]
  | @target t u _ kind text kind' =>
    obtain ⟨hrest, hkeeps⟩ := keeps_target hl kind kind'
    refine ⟨hrest, [t, u], fun rest h => ⟨hkeeps rest h, .target kind text kind', ?_⟩⟩
    obtain ⟨_, s, o⟩ := t
    obtain ⟨_, s', o'⟩ := u
    cases kind
    cases text
    cases kind'
    have hwritten := writtenChars_target s' o rest o'
    simp only [targetedNodeType] at hwritten
    simp [NodeTest.chars, typeChars, hwritten]

/-- The tokens begin like a path that has no slash in front. -/
def BeginsPath (ts : List Token) : Prop :=
  opensStep ts ∧ opensNumber ts = false

theorem beginsPath_axis (a : Axis) (o : Nat) (ts : List Token) :
    BeginsPath (⟨.axis, a.name, o⟩ :: ts) := by
  have hstep : startsWith isStepStart a.name.toList := by cases a <;> decide
  have hnumber : opensNumeral a.name.toList = false := by cases a <;> decide
  exact ⟨hstep, hnumber⟩

/-- Tokens for the axis and the node test of a step. -/
theorem expands_head (h : StepHead a test ts us) (hl : Lexed limit .step es ts) :
    Lexed limit .trail es us ∧ ∃ vs, ∀ rest, Lexed limit .trail es rest →
      Lexed limit .step es (vs ++ rest) ∧ BeginsPath (vs ++ rest) ∧
        StepHead a test (vs ++ rest) rest ∧
        writtenChars (vs ++ rest) = headChars a test ++ writtenChars rest := by
  obtain ⟨explicit, mid, haxis, htest⟩ := h
  obtain ⟨hrest, vs, hvs⟩ := expands_test htest (lexed_of_writtenAxis haxis hl)
  refine ⟨hrest, ⟨.axis, a.name, 0⟩ :: vs, fun rest h => ?_⟩
  obtain ⟨hlexed, hwritten, hchars⟩ := hvs rest h
  rw [List.cons_append]
  refine ⟨.axis a hlexed, beginsPath_axis a 0 _, ?_, ?_⟩
  · exact ⟨some a, vs ++ rest, .axis rfl (Axis.ofName?_name a), hwritten⟩
  · rw [writtenChars_axis, hchars, headChars]
    simp only [List.append_assoc, List.cons_append]

end Heads

/-! ### Phrases -/

/-- Wherever the tokens are followed by certain others they may stand, the grammar derives the
phrase from them, and they are written so. -/
def Stands (functions : Registry) (p : Phrase) (cs : List Char)
    (before after : List Token → Prop) (vs : List Token) : Prop :=
  ∀ rest, after rest → before (vs ++ rest) ∧ Derives functions p (vs ++ rest) rest ∧
    writtenChars (vs ++ rest) = cs ++ writtenChars rest

/-- The tokens stand behind the name of a function, if one is given, or behind an argument. -/
def InCall (limit : Nat) (es : List Bracket) : Option Token → List Token → Prop
  | some c, ts => c.kind = .call ∧ Lexed limit .step es (c :: ts)
  | none, ts => Lexed limit .operator (.call :: es) ts

section InCall

variable {limit : Nat} {es : List Bracket} {c : Option Token} {t : Token} {ts : List Token}

theorem keeps_callEnd (h : InCall limit es c (t :: ts)) (kind : t.kind = .callEnd) :
    Lexed limit .trail es ts ∧ ∀ us, Lexed limit .trail es us → InCall limit es c (t :: us) := by
  cases c with
  | none =>
    cases h with
    | callEnd rest => exact ⟨rest, fun us hus => .callEnd hus⟩
    | _ => simp at kind
  | some c =>
    obtain ⟨hc, h⟩ := h
    cases h with
    | emptyCall word other rest => exact ⟨rest, fun us hus => ⟨hc, .emptyCall word other hus⟩⟩
    | call => simp at kind
    | _ => simp at hc

/-- An argument begins with a comma, the first one with nothing. -/
theorem keeps_argument (h : InCall limit es c (t :: ts)) (kind : t.kind = .argument) :
    Lexed limit .operand (.call :: es) ts ∧
      (∀ us, Lexed limit .operand (.call :: es) us → InCall limit es c (t :: us)) ∧
      t.text.toList = if c.isSome then [] else [','] := by
  cases c with
  | none =>
    cases h with
    | argument rest => exact ⟨rest, fun us hus => .argument hus, by simp⟩
    | _ => simp at kind
  | some c =>
    obtain ⟨hc, h⟩ := h
    cases h with
    | call word other depth rest =>
      exact ⟨rest, fun us hus => ⟨hc, .call word other depth hus⟩, by simp⟩
    | emptyCall => simp at kind
    | _ => simp at hc

end InCall

/-- No predicate follows. -/
def NoPredicateNext (ts : List Token) : Prop :=
  NotNext (·.kind = .predicateStart) ts

/-- What the lexer emitted in front of a phrase is what it may emit behind it, and there are tokens
that stand for the phrase and abbreviate nothing. -/
def Phrase.Expands (functions : Registry) (limit : Nat) (n : Numerals) (p : Phrase)
    (ts us : List Token) : Prop :=
  match p with
  | .expression e => ∀ es, Lexed limit .operand es ts → Lexed limit .operator es us ∧
      ∃ vs, Stands functions (.expression e) (e.chars n) (Lexed limit .operand es)
        (fun rest => Lexed limit .operator es rest ∧ SameHead us rest) vs
  | .chain ops => ∀ es, Lexed limit .operator es ts → Lexed limit .operator es us ∧
      ∃ vs, Stands functions (.chain ops) (chainChars n ops)
        (fun rest => Lexed limit .operator es rest ∧ SameHead ts rest)
        (fun rest => Lexed limit .operator es rest ∧ SameHead us rest) vs
  | .operand e => ∀ es, Lexed limit .operand es ts → Lexed limit .operator es us ∧
      ∃ vs, Stands functions (.operand e) (e.chars n) (Lexed limit .operand es)
        (fun rest => Lexed limit .operator es rest ∧ SameHead us rest) vs
  | .arguments args => ∀ es c, InCall limit es c ts → Lexed limit .trail es us ∧
      ∃ vs, Stands functions (.arguments args) (argumentChars n c.isSome args ++ [')'])
        (fun rest => InCall limit es c rest ∧ SameHead ts rest) (Lexed limit .trail es) vs
  | .steps ss => ∀ es, Lexed limit .trail es ts → Lexed limit .operator es us ∧
      ∃ vs, Stands functions (.steps ss) (stepsChars n true ss)
        (fun rest => Lexed limit .trail es rest ∧ NoPredicateNext rest)
        (Lexed limit .operator es) vs
  | .step s => ∀ es, Lexed limit .step es ts → Lexed limit .trail es us ∧
      ∃ vs, Stands functions (.step s) (stepChars n s)
        (fun rest => Lexed limit .step es rest ∧ BeginsPath rest)
        (fun rest => Lexed limit .trail es rest ∧ NoPredicateNext rest) vs
  | .predicates ps => ∀ es, Lexed limit .trail es ts → Lexed limit .trail es us ∧
      ∃ vs, Stands functions (.predicates ps) (predicatesChars n ps) (Lexed limit .trail es)
        (fun rest => Lexed limit .trail es rest ∧ NoPredicateNext rest) vs

section Phrases

variable {functions : Registry} {limit : Nat} {n : Numerals} {ts us ws : List Token}

theorem expands_expression {first : Expr} {ops : List (Operator × Expr)}
    (left : (Phrase.operand first).Expands functions limit n ts us)
    (more : (Phrase.chain ops).Expands functions limit n us ws) :
    (Phrase.expression (assemble first ops)).Expands functions limit n ts ws := by
  intro es hts
  obtain ⟨hus, vs₁, h₁⟩ := left es hts
  obtain ⟨hws, vs₂, h₂⟩ := more es hus
  refine ⟨hws, vs₁ ++ vs₂, fun rest hrest => ?_⟩
  obtain ⟨hbefore₂, hderives₂, hwritten₂⟩ := h₂ rest hrest
  obtain ⟨hbefore₁, hderives₁, hwritten₁⟩ := h₁ (vs₂ ++ rest) hbefore₂
  rw [List.append_assoc]
  refine ⟨hbefore₁, .expression hderives₁ hderives₂, ?_⟩
  rw [hwritten₁, hwritten₂, chars_assemble, List.append_assoc]

theorem expands_noOperator (next : NotNext (fun t => (operator? t).isSome) ts) :
    (Phrase.chain []).Expands functions limit n ts ts := by
  intro es hts
  refine ⟨hts, [], fun rest hrest => ⟨hrest, .noOperator (next.replace ?_ hrest.2), rfl⟩⟩
  exact fun t u hk ht hu => operator?_congr hk ht ▸ hu

theorem expands_operator {t : Token} {op : Operator} {e : Expr} {ops : List (Operator × Expr)}
    (found : operator? t = some op) (right : (Phrase.operand e).Expands functions limit n ts us)
    (more : (Phrase.chain ops).Expands functions limit n us ws) :
    (Phrase.chain ((op, e) :: ops)).Expands functions limit n (t :: ts) ws := by
  intro es hts
  obtain ⟨⟨hts, hkeeps⟩, kind, text⟩ := keeps_operator hts found
  obtain ⟨hus, vs₁, h₁⟩ := right es hts
  obtain ⟨hws, vs₂, h₂⟩ := more es hus
  refine ⟨hws, t :: (vs₁ ++ vs₂), fun rest hrest => ?_⟩
  obtain ⟨hbefore₂, hderives₂, hwritten₂⟩ := h₂ rest hrest
  obtain ⟨hbefore₁, hderives₁, hwritten₁⟩ := h₁ (vs₂ ++ rest) hbefore₂
  rw [List.cons_append, List.append_assoc]
  refine ⟨⟨hkeeps _ hbefore₁, rfl⟩, .operator found hderives₁ hderives₂, ?_⟩
  rw [token_eq kind text, writtenChars_operator, hwritten₁, hwritten₂, chainChars_cons,
    ← chars_operator]
  simp only [List.append_assoc]

theorem expands_string {t : Token} (kind : t.kind = .string) :
    (Phrase.operand (.literal t.text)).Expands functions limit n (t :: ts) ts := by
  intro es hts
  obtain ⟨⟨hts, hkeeps⟩, hword⟩ := keeps_string hts kind
  refine ⟨hts, [t], fun rest hrest => ⟨hkeeps rest hrest.1, .string kind, ?_⟩⟩
  rw [token_eq kind rfl, List.singleton_append, writtenChars_quoted, Expr.chars]

theorem expands_number {t : Token} {x : Float} (kind : t.kind = .number)
    (value : Number.ofUnsigned? false t.text.toList = some x) :
    (Phrase.operand (.number x)).Expands functions limit n (t :: ts) ts := by
  intro es hts
  have hvalue := n.value x _ value
  refine ⟨lexed_of_number hts kind, [⟨.number, n.literal x, 0⟩], fun rest hrest => ?_⟩
  refine ⟨.number (isNumeral_of_ofUnsigned? hvalue) hrest.1, .number rfl hvalue, ?_⟩
  rw [List.singleton_append, writtenChars_number, Expr.chars]

/-- Tokens for predicates with steps behind them. -/
theorem expands_trail {ps : List Expr} {ss : List (Step Expr)}
    (conditions : (Phrase.predicates ps).Expands functions limit n ts us)
    (more : (Phrase.steps ss).Expands functions limit n us ws) {es : List Bracket}
    (hts : Lexed limit .trail es ts) :
    Lexed limit .operator es ws ∧ ∃ vs, ∀ rest, Lexed limit .operator es rest →
      ∃ mid, Lexed limit .trail es (vs ++ rest) ∧
        Derives functions (.predicates ps) (vs ++ rest) mid ∧
        Derives functions (.steps ss) mid rest ∧
        writtenChars (vs ++ rest)
          = predicatesChars n ps ++ stepsChars n true ss ++ writtenChars rest := by
  obtain ⟨hus, vs₁, h₁⟩ := conditions es hts
  obtain ⟨hws, vs₂, h₂⟩ := more es hus
  refine ⟨hws, vs₁ ++ vs₂, fun rest hrest => ⟨vs₂ ++ rest, ?_⟩⟩
  obtain ⟨hbefore₂, hderives₂, hwritten₂⟩ := h₂ rest hrest
  obtain ⟨hbefore₁, hderives₁, hwritten₁⟩ := h₁ (vs₂ ++ rest) hbefore₂
  rw [List.append_assoc]
  refine ⟨hbefore₁, hderives₁, hderives₂, ?_⟩
  rw [hwritten₁, hwritten₂, List.append_assoc]

/-- Tokens for a step with steps behind it. -/
theorem expands_path {s : Step Expr} {ss : List (Step Expr)}
    (first : (Phrase.step s).Expands functions limit n ts us)
    (more : (Phrase.steps ss).Expands functions limit n us ws) {es : List Bracket}
    (hts : Lexed limit .step es ts) :
    Lexed limit .operator es ws ∧ ∃ vs, ∀ rest, Lexed limit .operator es rest →
      ∃ mid, Lexed limit .step es (vs ++ rest) ∧ BeginsPath (vs ++ rest) ∧
        Derives functions (.step s) (vs ++ rest) mid ∧
        Derives functions (.steps ss) mid rest ∧
        writtenChars (vs ++ rest)
          = stepChars n s ++ stepsChars n true ss ++ writtenChars rest := by
  obtain ⟨hus, vs₁, h₁⟩ := first es hts
  obtain ⟨hws, vs₂, h₂⟩ := more es hus
  refine ⟨hws, vs₁ ++ vs₂, fun rest hrest => ⟨vs₂ ++ rest, ?_⟩⟩
  obtain ⟨hbefore₂, hderives₂, hwritten₂⟩ := h₂ rest hrest
  obtain ⟨hbefore₁, hderives₁, hwritten₁⟩ := h₁ (vs₂ ++ rest) hbefore₂
  rw [List.append_assoc]
  refine ⟨hbefore₁.1, hbefore₁.2, hderives₁, hderives₂, ?_⟩
  rw [hwritten₁, hwritten₂, List.append_assoc]

theorem expands_variable {t : Token} {ps : List Expr} {ss : List (Step Expr)}
    (kind : t.kind = .variable)
    (conditions : (Phrase.predicates ps).Expands functions limit n ts us)
    (more : (Phrase.steps ss).Expands functions limit n us ws) :
    (Phrase.operand (narrowed (.variable t.text) ps ss)).Expands functions limit n
      (t :: ts) ws := by
  intro es hts
  obtain ⟨hts, hkeeps⟩ := keeps_variable hts kind
  obtain ⟨hws, vs, hvs⟩ := expands_trail conditions more hts
  refine ⟨hws, t :: vs, fun rest hrest => ?_⟩
  obtain ⟨mid, hbefore, hconditions, hmore, hwritten⟩ := hvs rest hrest.1
  rw [List.cons_append]
  refine ⟨hkeeps _ hbefore, .variableName kind hconditions hmore, ?_⟩
  rw [token_eq kind rfl, writtenChars_variable, hwritten, chars_narrowed, Expr.chars]
  simp only [List.append_assoc, List.cons_append]

theorem expands_call {t : Token} {args ps : List Expr} {ss : List (Step Expr)} {vs : List Token}
    (kind : t.kind = .call) (inside : (Phrase.arguments args).Expands functions limit n ts us)
    (allowed : functions.check t.text args.length = .ok ())
    (conditions : (Phrase.predicates ps).Expands functions limit n us vs)
    (more : (Phrase.steps ss).Expands functions limit n vs ws) :
    (Phrase.operand (narrowed (.call t.text args) ps ss)).Expands functions limit n
      (t :: ts) ws := by
  intro es hts
  obtain ⟨hts, hopens, hnumber⟩ := lexed_of_path hts (by simp [stepKinds, kind])
  obtain ⟨hus, vs₁, h₁⟩ := inside es (some t) ⟨kind, hts⟩
  obtain ⟨hws, vs₂, h₂⟩ := expands_trail conditions more hus
  refine ⟨hws, t :: (vs₁ ++ vs₂), fun rest hrest => ?_⟩
  obtain ⟨mid, hbefore₂, hconditions, hmore, hwritten₂⟩ := h₂ rest hrest.1
  obtain ⟨⟨hbefore₁, -⟩, hinside, hwritten₁⟩ := h₁ (vs₂ ++ rest) hbefore₂
  rw [List.cons_append, List.append_assoc]
  refine ⟨.path hopens hnumber hbefore₁.2, .call kind hinside allowed hconditions hmore, ?_⟩
  rw [token_eq kind rfl, writtenChars_call, hwritten₁, hwritten₂, chars_narrowed, Expr.chars]
  simp only [List.append_assoc, List.cons_append, Option.isSome_some]

theorem expands_prefixedCall {t u : Token} {args ps : List Expr} {ss : List (Step Expr)}
    {vs : List Token} (kind : t.kind = .nameSpace) (kind' : u.kind = .call)
    (inside : (Phrase.arguments args).Expands functions limit n ts us)
    (allowed : functions.check (t.text ++ ":" ++ u.text) args.length = .ok ())
    (conditions : (Phrase.predicates ps).Expands functions limit n us vs)
    (more : (Phrase.steps ss).Expands functions limit n vs ws) :
    (Phrase.operand (narrowed (.call (t.text ++ ":" ++ u.text) args) ps ss)).Expands
      functions limit n (t :: u :: ts) ws := by
  intro es hts
  obtain ⟨hts, hopens, hnumber⟩ := lexed_of_path hts (by simp [stepKinds, kind])
  obtain ⟨hts, hkeeps⟩ := keeps_nameSpace hts kind
  obtain ⟨hus, vs₁, h₁⟩ := inside es (some u) ⟨kind', hts⟩
  obtain ⟨hws, vs₂, h₂⟩ := expands_trail conditions more hus
  refine ⟨hws, t :: u :: (vs₁ ++ vs₂), fun rest hrest => ?_⟩
  obtain ⟨mid, hbefore₂, hconditions, hmore, hwritten₂⟩ := h₂ rest hrest.1
  obtain ⟨⟨hbefore₁, -⟩, hinside, hwritten₁⟩ := h₁ (vs₂ ++ rest) hbefore₂
  rw [List.cons_append, List.cons_append, List.append_assoc]
  refine ⟨.path hopens hnumber (hkeeps _ hbefore₁.2),
    .prefixedCall kind kind' hinside allowed hconditions hmore, ?_⟩
  rw [token_eq kind rfl, token_eq kind' rfl, writtenChars_nameSpace, writtenChars_call, hwritten₁,
    hwritten₂, chars_narrowed, Expr.chars]
  simp [List.append_assoc]

/-! ### Paths -/

theorem expands_root {t u : Token} (kind : t.kind = .rootSlash) (kind' : u.kind = .pathEnd) :
    (Phrase.operand (.path true [])).Expands functions limit n (t :: u :: ts) ts := by
  intro es hts
  obtain ⟨hts, hopens⟩ := lexed_of_root hts kind kind'
  refine ⟨hts, [⟨.rootSlash, "/", 0⟩, ⟨.pathEnd, "", 0⟩], fun rest hrest => ?_⟩
  refine ⟨.root (opensStep_congr hrest.2 ▸ hopens) hrest.1, .root rfl rfl, ?_⟩
  rw [List.cons_append, List.singleton_append, writtenChars_rootSlash, writtenChars_pathEnd,
    Expr.chars, stepsChars]
  rfl

theorem expands_rootSlash {t : Token} {s : Step Expr} {ss : List (Step Expr)}
    (kind : t.kind = .rootSlash) (begins : beginsStep ts)
    (first : (Phrase.step s).Expands functions limit n ts us)
    (more : (Phrase.steps ss).Expands functions limit n us ws) :
    (Phrase.operand (.path true (s :: ss))).Expands functions limit n (t :: ts) ws := by
  intro es hts
  obtain ⟨hws, vs, hvs⟩ := expands_path first more (lexed_of_rootSlash hts kind begins)
  refine ⟨hws, ⟨.rootSlash, "/", 0⟩ :: vs, fun rest hrest => ?_⟩
  obtain ⟨mid, hbefore, hbegins, hfirst, hmore, hwritten⟩ := hvs rest hrest.1
  rw [List.cons_append]
  refine ⟨.rootSlash hbegins.1 hbefore, .rootSlash rfl hfirst hmore, ?_⟩
  rw [writtenChars_rootSlash, hwritten, Expr.chars, stepsChars]
  simp

/-- The tokens of the step that two slashes stand for, and of the slash behind it. -/
def anyBelowTokens : List Token :=
  [⟨.axis, Axis.descendantOrSelf.name, 0⟩, nodeToken, ⟨.slash, "/", 0⟩]

/-- Two slashes stand for a step of their own. -/
theorem stands_anyBelow {es : List Bracket} {s : Step Expr} {ss : List (Step Expr)}
    (hbefore : Lexed limit .step es ts) (hfirst : Derives functions (.step s) ts us)
    (hmore : Derives functions (.steps ss) us ws) :
    Lexed limit .step es (anyBelowTokens ++ ts) ∧ BeginsPath (anyBelowTokens ++ ts) ∧
      Derives functions (.step .anyBelow) (anyBelowTokens ++ ts) (⟨.slash, "/", 0⟩ :: ts) ∧
      Derives functions (.steps (s :: ss)) (⟨.slash, "/", 0⟩ :: ts) ws ∧
      writtenChars (anyBelowTokens ++ ts) = stepChars n .anyBelow ++ '/' :: writtenChars ts := by
  have hslash : Lexed limit .trail es (⟨.slash, "/", 0⟩ :: ts) := .slash hbefore
  obtain ⟨hlexed, hwritten, hchars⟩ := expands_node .descendantOrSelf hslash
  have hhead : StepHead .descendantOrSelf .node (anyBelowTokens ++ ts) (⟨.slash, "/", 0⟩ :: ts) :=
    ⟨_, _, .axis rfl (Axis.ofName?_name .descendantOrSelf), hwritten⟩
  refine ⟨.axis _ hlexed, beginsPath_axis _ _ _, ?_, .slash rfl hfirst hmore, ?_⟩
  · exact .step hhead (.noPredicate (by simp [NotNext]))
  · show writtenChars
      (⟨.axis, Axis.descendantOrSelf.name, 0⟩ :: nodeToken :: ⟨.slash, "/", 0⟩ :: ts) = _
    rw [writtenChars_axis, hchars, writtenChars_slash, Step.anyBelow, stepChars, predicatesChars,
      headChars]
    simp only [List.append_assoc, List.cons_append, List.nil_append]

theorem expands_rootDescent {t : Token} {s : Step Expr} {ss : List (Step Expr)}
    (kind : t.kind = .rootDescent) (first : (Phrase.step s).Expands functions limit n ts us)
    (more : (Phrase.steps ss).Expands functions limit n us ws) :
    (Phrase.operand (.path true (.anyBelow :: s :: ss))).Expands functions limit n
      (t :: ts) ws := by
  intro es hts
  obtain ⟨hws, vs, hvs⟩ := expands_path first more (lexed_of_rootDescent hts kind)
  refine ⟨hws, ⟨.rootSlash, "/", 0⟩ :: (anyBelowTokens ++ vs), fun rest hrest => ?_⟩
  obtain ⟨mid, hbefore, -, hfirst, hmore, hwritten⟩ := hvs rest hrest.1
  obtain ⟨hbefore, hbegins, hbelow, hmore, hchars⟩ :=
    stands_anyBelow (n := n) hbefore hfirst hmore
  rw [List.cons_append, List.append_assoc]
  refine ⟨.rootSlash hbegins.1 hbefore, .rootSlash rfl hbelow hmore, ?_⟩
  rw [writtenChars_rootSlash, hchars, hwritten, Expr.chars, stepsChars, stepsChars]
  simp

theorem expands_relative {s : Step Expr} {ss : List (Step Expr)} (begins : beginsStep ts)
    (first : (Phrase.step s).Expands functions limit n ts us)
    (more : (Phrase.steps ss).Expands functions limit n us ws) :
    (Phrase.operand (.path false (s :: ss))).Expands functions limit n ts ws := by
  intro es hts
  obtain ⟨hws, vs, hvs⟩ := expands_path first more (lexed_of_beginsStep hts begins)
  refine ⟨hws, vs, fun rest hrest => ?_⟩
  obtain ⟨mid, hbefore, hbegins, hfirst, hmore, hwritten⟩ := hvs rest hrest.1
  refine ⟨.path hbegins.1 hbegins.2 hbefore, .path hfirst hmore, ?_⟩
  rw [hwritten, Expr.chars, stepsChars]
  simp

theorem expands_noStep {t : Token} (kind : t.kind = .pathEnd) :
    (Phrase.steps []).Expands functions limit n (t :: ts) ts := by
  intro es hts
  obtain ⟨hts, hkeeps⟩ := keeps_pathEnd hts kind
  refine ⟨hts, [t], fun rest hrest => ?_⟩
  refine ⟨⟨hkeeps rest hrest, by simp [NoPredicateNext, NotNext, kind]⟩, .noStep kind, ?_⟩
  rw [token_eq kind rfl, List.singleton_append, writtenChars_pathEnd, stepsChars]
  rfl

theorem expands_slash {t : Token} {s : Step Expr} {ss : List (Step Expr)} (kind : t.kind = .slash)
    (first : (Phrase.step s).Expands functions limit n ts us)
    (more : (Phrase.steps ss).Expands functions limit n us ws) :
    (Phrase.steps (s :: ss)).Expands functions limit n (t :: ts) ws := by
  intro es hts
  obtain ⟨hts, hkeeps⟩ := keeps_slash hts kind
  obtain ⟨hws, vs, hvs⟩ := expands_path first more hts
  refine ⟨hws, t :: vs, fun rest hrest => ?_⟩
  obtain ⟨mid, hbefore, -, hfirst, hmore, hwritten⟩ := hvs rest hrest
  rw [List.cons_append]
  refine ⟨⟨hkeeps _ hbefore, by simp [NoPredicateNext, NotNext, kind]⟩, .slash kind hfirst hmore,
    ?_⟩
  rw [token_eq kind rfl, writtenChars_slash, hwritten, stepsChars]
  simp

theorem expands_descent {t : Token} {s : Step Expr} {ss : List (Step Expr)}
    (kind : t.kind = .descent) (first : (Phrase.step s).Expands functions limit n ts us)
    (more : (Phrase.steps ss).Expands functions limit n us ws) :
    (Phrase.steps (.anyBelow :: s :: ss)).Expands functions limit n (t :: ts) ws := by
  intro es hts
  obtain ⟨hws, vs, hvs⟩ := expands_path first more (lexed_of_descent hts kind)
  refine ⟨hws, ⟨.slash, "/", 0⟩ :: (anyBelowTokens ++ vs), fun rest hrest => ?_⟩
  obtain ⟨mid, hbefore, -, hfirst, hmore, hwritten⟩ := hvs rest hrest
  obtain ⟨hbefore, -, hbelow, hmore, hchars⟩ := stands_anyBelow (n := n) hbefore hfirst hmore
  rw [List.cons_append, List.append_assoc]
  refine ⟨⟨.slash hbefore, by simp [NoPredicateNext, NotNext]⟩, .slash rfl hbelow hmore, ?_⟩
  rw [writtenChars_slash, hchars, hwritten, stepsChars, stepsChars]
  simp

/-! ### Steps and brackets -/

theorem expands_step {a : Axis} {test : NodeTest} {ps : List Expr} (head : StepHead a test ts us)
    (conditions : (Phrase.predicates ps).Expands functions limit n us ws) :
    (Phrase.step ⟨a, test, ps⟩).Expands functions limit n ts ws := by
  intro es hts
  obtain ⟨hus, vs₁, h₁⟩ := expands_head head hts
  obtain ⟨hws, vs₂, h₂⟩ := conditions es hus
  refine ⟨hws, vs₁ ++ vs₂, fun rest hrest => ?_⟩
  obtain ⟨hbefore₂, hconditions, hwritten₂⟩ := h₂ rest hrest
  obtain ⟨hbefore₁, hbegins, hhead, hwritten₁⟩ := h₁ (vs₂ ++ rest) hbefore₂
  rw [List.append_assoc]
  refine ⟨⟨hbefore₁, hbegins⟩, .step hhead hconditions, ?_⟩
  rw [hwritten₁, hwritten₂, stepChars, List.append_assoc]

theorem expands_noPredicate : (Phrase.predicates []).Expands functions limit n ts ts := by
  intro es hts
  refine ⟨hts, [], fun rest hrest => ⟨hrest.1, .noPredicate hrest.2, ?_⟩⟩
  rw [predicatesChars]
  rfl

theorem expands_predicate {t u : Token} {e : Expr} {ps : List Expr}
    (kind : t.kind = .predicateStart)
    (first : (Phrase.expression e).Expands functions limit n ts (u :: us))
    (kind' : u.kind = .predicateEnd)
    (more : (Phrase.predicates ps).Expands functions limit n us ws) :
    (Phrase.predicates (e :: ps)).Expands functions limit n (t :: ts) ws := by
  intro es hts
  obtain ⟨hts, hkeeps⟩ := keeps_predicateStart hts kind
  obtain ⟨hus, vs₁, h₁⟩ := first _ hts
  obtain ⟨hus, hkeeps'⟩ := keeps_predicateEnd hus kind'
  obtain ⟨hws, vs₂, h₂⟩ := more es hus
  refine ⟨hws, t :: (vs₁ ++ u :: vs₂), fun rest hrest => ?_⟩
  obtain ⟨hbefore₂, hmore, hwritten₂⟩ := h₂ rest hrest
  obtain ⟨hbefore₁, hfirst, hwritten₁⟩ := h₁ (u :: (vs₂ ++ rest)) ⟨hkeeps' _ hbefore₂, rfl⟩
  rw [List.cons_append, List.append_assoc, List.cons_append]
  refine ⟨hkeeps _ hbefore₁, .predicate kind hfirst kind' hmore, ?_⟩
  rw [token_eq kind rfl, writtenChars_predicateStart, hwritten₁, token_eq kind' rfl,
    writtenChars_predicateEnd, hwritten₂, predicatesChars]
  simp only [List.append_assoc, List.cons_append]

theorem expands_noArgument {t : Token} (kind : t.kind = .callEnd) :
    (Phrase.arguments []).Expands functions limit n (t :: ts) ts := by
  intro es c hts
  obtain ⟨hts, hkeeps⟩ := keeps_callEnd hts kind
  refine ⟨hts, [t], fun rest hrest => ⟨⟨hkeeps rest hrest, rfl⟩, .noArgument kind, ?_⟩⟩
  rw [token_eq kind rfl, List.singleton_append, writtenChars_callEnd, argumentChars]
  rfl

theorem expands_argument {t : Token} {e : Expr} {args : List Expr} (kind : t.kind = .argument)
    (first : (Phrase.expression e).Expands functions limit n ts us)
    (more : (Phrase.arguments args).Expands functions limit n us ws) :
    (Phrase.arguments (e :: args)).Expands functions limit n (t :: ts) ws := by
  intro es c hts
  obtain ⟨hts, hkeeps, htext⟩ := keeps_argument hts kind
  obtain ⟨hus, vs₁, h₁⟩ := first _ hts
  obtain ⟨hws, vs₂, h₂⟩ := more es none hus
  refine ⟨hws, t :: (vs₁ ++ vs₂), fun rest hrest => ?_⟩
  obtain ⟨hbefore₂, hmore, hwritten₂⟩ := h₂ rest hrest
  obtain ⟨hbefore₁, hfirst, hwritten₁⟩ := h₁ (vs₂ ++ rest) hbefore₂
  rw [List.cons_append, List.append_assoc]
  refine ⟨⟨hkeeps _ hbefore₁, rfl⟩, .argument kind hfirst hmore, ?_⟩
  rw [token_eq kind rfl, writtenChars_argument, hwritten₁, hwritten₂, argumentChars, htext]
  simp

/-- Every phrase that was derived has tokens that stand for it and abbreviate nothing. -/
theorem expands_of_derives {p : Phrase} (h : Derives functions p ts us) :
    p.Expands functions limit n ts us := by
  induction h with
  | expression left more ihLeft ihMore => exact expands_expression ihLeft ihMore
  | noOperator next => exact expands_noOperator next
  | operator found right more ihRight ihMore => exact expands_operator found ihRight ihMore
  | string kind => exact expands_string kind
  | number kind value => exact expands_number kind value
  | variableName kind conditions more ihConditions ihMore =>
    exact expands_variable kind ihConditions ihMore
  | call kind inside allowed conditions more ihInside ihConditions ihMore =>
    exact expands_call kind ihInside allowed ihConditions ihMore
  | prefixedCall kind kind' inside allowed conditions more ihInside ihConditions ihMore =>
    exact expands_prefixedCall kind kind' ihInside allowed ihConditions ihMore
  | root kind kind' => exact expands_root kind kind'
  | rootSlash kind first more ihFirst ihMore =>
    exact expands_rootSlash kind first.begins ihFirst ihMore
  | rootDescent kind first more ihFirst ihMore => exact expands_rootDescent kind ihFirst ihMore
  | path first more ihFirst ihMore => exact expands_relative first.begins ihFirst ihMore
  | noArgument kind => exact expands_noArgument kind
  | argument kind first more ihFirst ihMore => exact expands_argument kind ihFirst ihMore
  | noStep kind => exact expands_noStep kind
  | slash kind first more ihFirst ihMore => exact expands_slash kind ihFirst ihMore
  | descent kind first more ihFirst ihMore => exact expands_descent kind ihFirst ihMore
  | step head conditions ihConditions => exact expands_step head ihConditions
  | noPredicate next => exact expands_noPredicate
  | predicate kind first kind' more ihFirst ihMore =>
    exact expands_predicate kind ihFirst kind' ihMore

end Phrases

end Parser

/-! ### Whole texts -/

/-- A parsed expression is parsed again from its form without abbreviations, however its numbers are
written there. -/
theorem parse_print {functions : Registry} {limit : Nat} {s : String} {e : Expr}
    (h : parse functions limit s = .ok e) (n : Numerals) :
    parse functions limit (e.print n) = .ok e := by
  obtain ⟨ts, hts, hderives⟩ := parse_eq_ok.1 h
  have hlexed : Lexer.Lexed limit .operand [] ts := Lexer.lexed_of_run (Lexer.start s) ts hts
  obtain ⟨-, us, hus⟩ := Parser.expands_of_derives (n := n) hderives [] hlexed
  obtain ⟨hbefore, hagain, hwritten⟩ := hus [] ⟨.noOperator, rfl⟩
  rw [List.append_nil] at hbefore hagain hwritten
  have hprinted : (e.print n).toList = writtenChars us := by
    rw [hwritten, Lexer.writtenChars_nil, List.append_nil, Expr.print, String.toList_ofList]
  obtain ⟨vs, hvs, hs⟩ := Lexer.run_of_lexed hbefore (Lexer.start (e.print n)) rfl rfl
    (by rw [← hprinted]; rfl)
  obtain ⟨ws, hws, hderives⟩ := hagain.stable vs (Eq.symm hs)
  rw [hws.nil_left] at hderives
  exact parse_eq_ok.2 ⟨vs, hvs, hderives⟩

/-- Every abbreviation once, around a predicate. -/
theorem parse_print_abbreviations : ∃ (n : Numerals) (e : Expr),
    parse .standard 2 "..//a[@b = \"x\" and .]" = .ok e ∧
      e.print n = "parent::node()/descendant-or-self::node()/child::a" ++
        "[attribute::b='x' and self::node()]" ∧
      parse .standard 2 (e.print n) = .ok e := by
  have hprint : (parse .standard 2 "..//a[@b = \"x\" and .]").map
      (Expr.print (Classical.choice Numerals.nonempty))
        = .ok ("parent::node()/descendant-or-self::node()/child::a" ++
          "[attribute::b='x' and self::node()]") := by
    decide +kernel
  obtain ⟨e, hparse, he⟩ := map_eq_ok.1 hprint
  exact ⟨_, e, hparse, he, parse_print hparse _⟩

end XPath
