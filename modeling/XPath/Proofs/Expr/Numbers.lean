import XPath.Builtin
import XPath.Proofs.Expr.Accepted
import XPath.Proofs.Expr.Parts
import XPath.Proofs.Number.Text
import XPath.Proofs.Token.Branches

/-!
# The numbers in an expression

The lexer measures a number with a scanner of its own, and the reader of numbers takes a whole text
apart.  Both know the same numerals: every number that the lexer emits has a value, so the reader of
expressions never fails for one, and the values in an expression are those of the numbers among its
tokens.

* `Lexer.IsEmitted`, `Lexer.isNumeral_of_isEmitted`: the tokens of all moves, and the numbers among
  them;
* `Parser.Fluent`, `Parser.fluent`: reading that does not fail for a number;
* `Expr.numbers`, `numbersOf`: the numbers in an expression and among tokens;
* `Parser.Derives.numbers_eq`: they are the same, by induction on the grammar;
* `parse_numbers`: the numbers in a text.
-/

namespace XPath

open Lexer (IsNumeral)

/-! ### Numbers among the tokens of a move -/

namespace Lexer

/-- The lexer can emit the token, on whatever text and even if it fails later on. -/
def IsEmitted (limit : Nat) (t : Token) : Prop :=
  ∃ s tokens next, move limit s = .emit tokens next ∧ t ∈ tokens

theorem isEmitted_of_run {limit : Nat} :
    ∀ s ts, run limit s = .ok ts → ∀ t ∈ ts, IsEmitted limit t := by
  refine run_induction (fun s _ => List.forall_mem_nil _) ?_
  intro s tokens next rest hmove _ hrest
  exact List.forall_mem_append.2 ⟨fun t ht => ⟨s, tokens, next, hmove, ht⟩, hrest⟩

/-- Whatever is open can be closed. -/
theorem exists_lexed (limit : Nat) (mode : Mode) (es : List Bracket) :
    ∃ ts, Lexed limit mode es ts := by
  have hoperator : ∃ ts, Lexed limit .operator es ts := by
    induction es with
    | nil => exact ⟨[], .noOperator⟩
    | cons b es ih =>
      obtain ⟨ts, hts⟩ := ih
      have htrail : Lexed limit .trail es (⟨.pathEnd, "", 0⟩ :: ts) := .pathEnd hts
      cases b with
      | predicate => exact ⟨_, .predicateEnd (o := 0) htrail⟩
      | call => exact ⟨_, .callEnd (o := 0) htrail⟩
  obtain ⟨ts, hts⟩ := hoperator
  have htrail : Lexed limit .trail es (⟨.pathEnd, "", 0⟩ :: ts) := .pathEnd hts
  have hstep : Lexed limit .step es (⟨.name, "*", 0⟩ :: ⟨.pathEnd, "", 0⟩ :: ts) :=
    .name (.inr rfl) htrail
  have hoperand : Lexed limit .operand es (⟨.string, "", 0⟩ :: ts) := .string (.inl (by simp)) hts
  cases mode with
  | operand => exact ⟨_, hoperand⟩
  | step => exact ⟨_, hstep⟩
  | trail => exact ⟨_, htrail⟩
  | operator => exact ⟨_, hts⟩

theorem isNumeral_of_operandMove {s next : State} {tokens : List Token}
    (h : operandMove s = .emit tokens next) :
    ∀ t ∈ tokens, t.kind = .number → IsNumeral t.text.toList := by
  obtain ⟨-, hemits⟩ := operandMove_cases h
  generalize next.mode = mode, Text.trimStart next.cursor.rest = cs at hemits
  cases hemits with
  | rootDescent | rootSlash _ | variableName _ | string _ =>
    exact List.forall_mem_singleton.2 nofun
  | root alone => exact List.forall_mem_cons.2 ⟨nofun, List.forall_mem_singleton.2 nofun⟩
  | number word => exact List.forall_mem_singleton.2 fun _ => word
  | path opens noNumber => exact List.forall_mem_nil _

/-- Every number that the lexer emits is a numeral. -/
theorem isNumeral_of_isEmitted {limit : Nat} {t : Token} (h : IsEmitted limit t)
    (kind : t.kind = .number) : IsNumeral t.text.toList := by
  obtain ⟨s, tokens, next, hmove, ht⟩ := h
  -- the tokens of other moves are known together with any that may follow them
  obtain ⟨ts, hts⟩ := exists_lexed limit next.mode next.brackets
  have hlexed : ∀ {mode es}, Lexed limit mode es (tokens ++ ts) → IsNumeral t.text.toList :=
    fun h => (Parser.worded_of_lexed h t (List.mem_append_left _ ht)).number kind
  unfold move at hmove
  split at hmove
  · exact isNumeral_of_operandMove hmove t ht kind
  · exact hlexed ((stepMove_lexed hmove).2 ts hts)
  · exact hlexed (trailMove_lexed hmove hts)
  · exact hlexed ((operatorMove_lexed limit hmove).2 ts hts)

end Lexer

/-! ### Reading does not fail for a number -/

namespace Parser

/-- Reading does not fail for a number, and the tokens that it leaves have texts of their kinds. -/
def Fluent {α : Type} {b : Nat} (r : Reading α b) : Prop :=
  Ends (fun e => ∀ text, e ≠ .grammar (.invalidNumber text)) (fun p => ∀ t ∈ p.rest, Worded t) r

section Fluent

variable {α β : Type} {a b : Nat}

theorem Fluent.bind {x : Reading β a} {f : Parsed β a → Reading α b} (h : Fluent x)
    (hf : ∀ v us hlt, (∀ t ∈ us, Worded t) → Fluent (f ⟨v, us, hlt⟩)) : Fluent (x >>= f) :=
  Ends.bind h fun ⟨v, us, hlt⟩ hus => hf v us hlt hus

theorem fluent_unexpected (t : Token) : Fluent (unexpected t : Reading α b) := by
  intro text
  simp

theorem fluent_unexpectedEnd : Fluent (unexpectedEnd : Reading α b) := by
  intro text
  simp

variable {t : Token} {ts : List Token}

theorem fluent_expect (kind : Token.Kind) (hts : ∀ t ∈ ts, Worded t) : Fluent (expect kind ts) := by
  cases ts with
  | nil => exact fluent_unexpectedEnd
  | cons t ts =>
    rw [expect]
    split
    · exact (List.forall_mem_cons.1 hts).2
    · exact fluent_unexpected t

theorem fluent_nodeType (name : String) (hts : ∀ t ∈ ts, Worded t) : Fluent (nodeType name ts) := by
  unfold nodeType
  split
  · exact hts
  split
  · exact hts
  split
  · exact hts
  split
  · cases ts with
    | nil => exact hts
    | cons t ts =>
      simp only
      split
      · exact (List.forall_mem_cons.1 hts).2
      · exact hts
  · intro text
    simp

theorem fluent_axis (hts : ∀ t ∈ ts, Worded t) : Fluent (axis ts) := by
  cases ts with
  | nil => exact hts
  | cons t ts =>
    simp only [axis]
    split
    · split
      · exact (List.forall_mem_cons.1 hts).2
      · intro text
        simp
    · split
      · exact (List.forall_mem_cons.1 hts).2
      · exact hts

theorem fluent_nodeTest (explicit : Option Axis) (hts : ∀ t ∈ ts, Worded t) :
    Fluent (nodeTest explicit ts) := by
  cases ts with
  | nil => exact fluent_unexpectedEnd
  | cons t ts =>
    obtain ⟨-, hrest⟩ := List.forall_mem_cons.1 hts
    simp only [nodeTest]
    split
    · cases hhead : namedStep explicit t.text with
      | error e =>
        unfold namedStep at hhead
        split at hhead
        · split at hhead
          · cases hhead
            intro text
            simp
          · simp at hhead
        · simp at hhead
      | ok head => exact hrest
    · exact (fluent_expect .name hrest).bind fun _ _ _ hus => hus
    · exact (fluent_nodeType t.text hrest).bind fun _ _ _ hus => hus
    · exact fluent_unexpected t

theorem fluent_stepHead (hts : ∀ t ∈ ts, Worded t) : Fluent (stepHead ts) :=
  (fluent_axis hts).bind fun explicit _ _ hus =>
    (fluent_nodeTest explicit hus).bind fun _ _ _ hvs => hvs

end Fluent

/-- Every function reads fluently from the tokens. -/
structure FluentFrom (functions : Registry) (ts : List Token) : Prop where
  expression : Fluent (expression functions ts)
  operators : Fluent (operators functions ts)
  operand : Fluent (operand functions ts)
  arguments : Fluent (arguments functions ts)
  steps : Fluent (steps functions ts)
  step : Fluent (step functions ts)
  predicates : Fluent (predicates functions ts)

section FluentFrom

variable {functions : Registry} {ts : List Token}

theorem fluent_filtered (primary : Expr) (hts : ∀ t ∈ ts, Worded t)
    (ih : ∀ vs, vs.length < ts.length + 1 → (∀ t ∈ vs, Worded t) → FluentFrom functions vs) :
    Fluent (filtered functions primary ts) := by
  rw [filtered]
  refine (ih ts (Nat.lt_succ_self _) hts).predicates.bind fun ps ts₁ h₁ hts₁ => ?_
  exact (ih ts₁ h₁ hts₁).steps.bind fun _ _ _ hts₂ => hts₂

theorem fluent_call (name : String) (h : FluentFrom functions ts) :
    Fluent (call functions name ts) := by
  rw [call]
  refine h.arguments.bind fun es ts₁ h₁ hts₁ => ?_
  simp only
  split
  · exact hts₁
  · exact nofun

variable (ih : ∀ vs, vs.length < ts.length → (∀ t ∈ vs, Worded t) →
    FluentFrom functions vs)
  (hts : ∀ t ∈ ts, Worded t)

include ih hts

theorem fluent_predicates : Fluent (predicates functions ts) := by
  cases ts with
  | nil =>
    rw [predicates]
    exact hts
  | cons t ts =>
    obtain ⟨-, hrest⟩ := List.forall_mem_cons.1 hts
    have hlt : ts.length < (t :: ts).length := Nat.lt_succ_self _
    rw [predicates]
    split
    · refine (ih ts hlt hrest).expression.bind fun e ts₁ h₁ hts₁ => ?_
      refine (fluent_expect .predicateEnd hts₁).bind fun u ts₂ h₂ hts₂ => ?_
      exact (ih ts₂ (by omega) hts₂).predicates.bind fun _ _ _ hts₃ => hts₃
    · exact hts

theorem fluent_step : Fluent (step functions ts) := by
  rw [step]
  refine (fluent_stepHead hts).bind fun head ts₁ h₁ hts₁ => ?_
  exact (ih ts₁ h₁ hts₁).predicates.bind fun _ _ _ hts₂ => hts₂

theorem fluent_steps : Fluent (steps functions ts) := by
  cases ts with
  | nil =>
    rw [steps]
    exact fluent_unexpectedEnd
  | cons t ts =>
    obtain ⟨-, hrest⟩ := List.forall_mem_cons.1 hts
    have hlt : ts.length < (t :: ts).length := Nat.lt_succ_self _
    rw [steps]
    split
    · exact hrest
    · refine (ih ts hlt hrest).step.bind fun s ts₁ h₁ hts₁ => ?_
      exact (ih ts₁ (by omega) hts₁).steps.bind fun _ _ _ hts₂ => hts₂
    · refine (ih ts hlt hrest).step.bind fun s ts₁ h₁ hts₁ => ?_
      exact (ih ts₁ (by omega) hts₁).steps.bind fun _ _ _ hts₂ => hts₂
    · exact fluent_unexpected t

theorem fluent_arguments : Fluent (arguments functions ts) := by
  cases ts with
  | nil =>
    rw [arguments]
    exact fluent_unexpectedEnd
  | cons t ts =>
    obtain ⟨-, hrest⟩ := List.forall_mem_cons.1 hts
    have hlt : ts.length < (t :: ts).length := Nat.lt_succ_self _
    rw [arguments]
    split
    · exact hrest
    · refine (ih ts hlt hrest).expression.bind fun e ts₁ h₁ hts₁ => ?_
      exact (ih ts₁ (by omega) hts₁).arguments.bind fun _ _ _ hts₂ => hts₂
    · exact fluent_unexpected t

theorem fluent_operators : Fluent (operators functions ts) := by
  cases ts with
  | nil =>
    rw [operators]
    exact hts
  | cons t ts =>
    obtain ⟨-, hrest⟩ := List.forall_mem_cons.1 hts
    have hlt : ts.length < (t :: ts).length := Nat.lt_succ_self _
    rw [operators]
    split
    · exact hts
    · refine (ih ts hlt hrest).operand.bind fun e ts₁ h₁ hts₁ => ?_
      exact (ih ts₁ (by omega) hts₁).operators.bind fun _ _ _ hts₂ => hts₂

theorem fluent_path : Fluent (path functions ts) := by
  cases ts with
  | nil =>
    rw [path]
    exact fluent_unexpectedEnd
  | cons t ts =>
    obtain ⟨-, hrest⟩ := List.forall_mem_cons.1 hts
    have hlt : ts.length < (t :: ts).length := Nat.lt_succ_self _
    rw [path.eq_def]
    simp only
    split
    · split
      · exact fluent_unexpectedEnd
      · rename_i u us
        split
        · exact (List.forall_mem_cons.1 hrest).2
        · refine (ih _ hlt hrest).step.bind fun s ts₁ h₁ hts₁ => ?_
          exact (ih ts₁ (by omega) hts₁).steps.bind fun _ _ _ hts₂ => hts₂
    · refine (ih ts hlt hrest).step.bind fun s ts₁ h₁ hts₁ => ?_
      exact (ih ts₁ (by omega) hts₁).steps.bind fun _ _ _ hts₂ => hts₂
    · refine (fluent_step ih hts).bind fun s ts₁ h₁ hts₁ => ?_
      exact (ih ts₁ h₁ hts₁).steps.bind fun _ _ _ hts₂ => hts₂

theorem fluent_operand : Fluent (operand functions ts) := by
  cases ts with
  | nil =>
    rw [operand]
    exact fluent_unexpectedEnd
  | cons t ts =>
    obtain ⟨hword, hrest⟩ := List.forall_mem_cons.1 hts
    have hlt : ts.length < (t :: ts).length := Nat.lt_succ_self _
    rw [operand.eq_def]
    simp only
    split
    · exact hrest
    · rename_i kind
      split
      · exact hrest
      · rename_i hnone
        obtain ⟨x, hx⟩ := exists_ofUnsigned? (hword.number kind)
        rw [hnone] at hx
        cases hx
    · exact (fluent_filtered _ hrest ih).bind fun _ _ _ hts₁ => hts₁
    · refine (fluent_call _ (ih ts hlt hrest)).bind fun e ts₁ h₁ hts₁ => ?_
      refine (fluent_filtered _ hts₁ fun vs hvs => ih vs (by omega)).bind fun _ _ _ hts₂ => hts₂
    · split
      · exact fluent_path ih hts
      · rename_i u us
        obtain ⟨-, hus⟩ := List.forall_mem_cons.1 hrest
        have hlt : us.length < (u :: us).length := Nat.lt_succ_self _
        split
        · refine (fluent_call _ (ih us (by omega) hus)).bind fun e ts₁ h₁ hts₁ => ?_
          refine (fluent_filtered _ hts₁ fun vs hvs => ih vs (by omega)).bind fun _ _ _ hts₂ => hts₂
        · exact fluent_path ih hts
    all_goals first
      | exact fluent_unexpected t
      | exact fluent_path ih hts

end FluentFrom

/-- From tokens with texts of their kinds every function reads fluently. -/
theorem fluent (functions : Registry) (ts : List Token) (hts : ∀ t ∈ ts, Worded t) :
    FluentFrom functions ts := by
  induction hn : ts.length using Nat.strongRecOn generalizing ts with
  | ind n ih =>
    have ih : ∀ vs, vs.length < ts.length → (∀ t ∈ vs, Worded t) → FluentFrom functions vs :=
      fun vs hvs hws => ih _ (hn ▸ hvs) vs hws rfl
    refine ⟨?_, fluent_operators ih hts, fluent_operand ih hts, fluent_arguments ih hts,
      fluent_steps ih hts, fluent_step ih hts, fluent_predicates ih hts⟩
    rw [expression]
    refine (fluent_operand ih hts).bind fun first ts₁ h₁ hts₁ => ?_
    exact (ih ts₁ h₁ hts₁).operators.bind fun _ _ _ hts₂ => hts₂

end Parser

/-- No text is rejected for a number in it. -/
theorem parse_ne_invalidNumber (functions : Registry) (limit : Nat) (s text : String) :
    parse functions limit s ≠ .error (.grammar (.invalidNumber text)) := by
  unfold parse
  split
  · simp
  · rename_i ts hts
    have hlexed : Lexer.Lexed limit .operand [] ts := Lexer.lexed_of_run (Lexer.start s) ts hts
    have hfluent := (Parser.fluent functions ts (Parser.worded_of_lexed hlexed)).expression
    unfold parseTokens
    split
    · simp
    · split
      · rename_i e he
        rw [he] at hfluent
        intro h
        exact hfluent text (Except.error.inj h)
      · simp
      · simp [Parser.unexpected]

/-! ### The numbers in an expression -/

def Expr.number? : Expr → Option Float
  | .number x => some x
  | _ => none

/-- The numbers in an expression, at any depth, in the order in which they are written. -/
def Expr.numbers (e : Expr) : List Float :=
  e.parts.filterMap number?

def numbersOf (ts : List Token) : List Float :=
  (ts.filter (·.kind = .number)).map fun t => Number.ofText t.text

theorem Expr.numbers_eq (e : Expr) : e.numbers = e.number?.toList ++ e.inner.flatMap numbers := by
  rw [numbers, parts_eq, List.filterMap_cons, List.filterMap_flatMap]
  cases e.number? <;> rfl

theorem Expr.numbers_apply (op : Operator) (l r : Expr) :
    (op.apply l r).numbers = l.numbers ++ ([] ++ r.numbers) := by
  cases op with
  | comparison op => simp [Operator.apply, numbers_eq (.compare op l r), number?, inner]
  | connective op => simp [Operator.apply, numbers_eq (.connect op l r), number?, inner]

theorem Expr.numbers_variable (name : String) : (Expr.variable name).numbers = [] := by
  rw [numbers_eq]
  rfl

theorem Expr.numbers_call (name : String) (args : List Expr) :
    (Expr.call name args).numbers = args.flatMap numbers := by
  rw [numbers_eq]
  rfl

theorem Expr.numbers_path (absolute : Bool) (ss : List (Step Expr)) :
    (Expr.path absolute ss).numbers = ss.flatMap fun s => s.predicates.flatMap numbers := by
  rw [numbers_eq, inner, List.flatMap_assoc]
  rfl

theorem Expr.numbers_narrowed (primary : Expr) (ps : List Expr) (ss : List (Step Expr)) :
    (Parser.narrowed primary ps ss).numbers = primary.numbers ++
      (ps.flatMap numbers ++ ss.flatMap fun s => s.predicates.flatMap numbers) := by
  unfold Parser.narrowed
  split
  · rename_i hempty
    simp only [Bool.and_eq_true, List.isEmpty_iff] at hempty
    simp [hempty.1, hempty.2]
  · rw [numbers_eq, inner, List.flatMap_cons, List.flatMap_append, List.flatMap_assoc]
    rfl

namespace Parser

def Phrase.numbers : Phrase → List Float
  | .expression e => e.numbers
  | .chain ops => ops.flatMap fun o => [] ++ o.2.numbers
  | .operand e => e.numbers
  | .arguments es => es.flatMap Expr.numbers
  | .steps ss => ss.flatMap fun s => s.predicates.flatMap Expr.numbers
  | .step s => s.predicates.flatMap Expr.numbers
  | .predicates es => es.flatMap Expr.numbers

/-- The step that two slashes stand for has no numbers in it. -/
theorem numbers_anyBelow : (Step.anyBelow : Step Expr).predicates.flatMap Expr.numbers = [] :=
  rfl

theorem numbersOf_cons {t : Token} {k : Token.Kind} (kind : t.kind = k) (hk : k ≠ .number)
    (ts : List Token) : numbersOf (t :: ts) = numbersOf ts := by
  rw [numbersOf, List.filter_cons_of_neg (by simpa [kind] using hk), numbersOf]

theorem numbersOf_cons_number {t : Token} (kind : t.kind = .number) (ts : List Token) :
    numbersOf (t :: ts) = Number.ofText t.text :: numbersOf ts := by
  rw [numbersOf, List.filter_cons_of_pos (by simp [kind]), List.map_cons, numbersOf]

theorem StepHead.numbersOf_eq {a : Axis} {test : NodeTest} {ts us : List Token}
    (h : StepHead a test ts us) : numbersOf ts = numbersOf us := by
  obtain ⟨explicit, mid, haxis, htest⟩ := h
  have hmid : numbersOf ts = numbersOf mid := by
    cases haxis with
    | axis kind found => exact numbersOf_cons kind (by decide) _
    | attributeSign kind => exact numbersOf_cons kind (by decide) _
    | nothing => rfl
  rw [hmid]
  cases htest with
  | name kind head => exact numbersOf_cons kind (by decide) _
  | nameSpace kind kind' =>
    rw [numbersOf_cons kind (by decide), numbersOf_cons kind' (by decide)]
  | nodeType kind plain => exact numbersOf_cons kind (by decide) _
  | instruction kind text next => exact numbersOf_cons kind (by decide) _
  | target kind text kind' =>
    rw [numbersOf_cons kind (by decide), numbersOf_cons kind' (by decide)]

/-- What is derived has the numbers of the tokens that it takes. -/
theorem Derives.numbers_eq {functions : Registry} {ph : Phrase} {ts us : List Token}
    (h : Derives functions ph ts us) : numbersOf ts = ph.numbers ++ numbersOf us := by
  induction h with
  | expression left more ihLeft ihMore =>
    rw [ihLeft, ihMore, ← List.append_assoc]
    congr 1
    exact (assemble_of_append (fun _ => []) Expr.numbers_apply _ _).symm
  | noOperator next => rfl
  | operator found right more ihRight ihMore =>
    obtain ⟨kind, -⟩ := operator?_eq_some.1 found
    rw [numbersOf_cons kind (by decide), ihRight, ihMore, ← List.append_assoc]
    rfl
  | string kind => exact numbersOf_cons kind (by decide) _
  | number kind value =>
    have htext := Number.ofUnsigned?_eq_ofText (Lexer.isNumeral_of_ofUnsigned? value)
    rw [value] at htext
    rw [numbersOf_cons_number kind, ← Option.some.inj htext]
    rfl
  | variableName kind conditions more ihConditions ihMore =>
    rw [numbersOf_cons kind (by decide), ihConditions, ihMore]
    simp only [Phrase.numbers, Expr.numbers_narrowed, Expr.numbers_variable, List.nil_append,
      List.append_assoc]
  | call kind inside allowed conditions more ihInside ihConditions ihMore =>
    rw [numbersOf_cons kind (by decide), ihInside, ihConditions, ihMore]
    simp only [Phrase.numbers, Expr.numbers_narrowed, Expr.numbers_call, List.append_assoc]
  | prefixedCall kind kind' inside allowed conditions more ihInside ihConditions ihMore =>
    rw [numbersOf_cons kind (by decide), numbersOf_cons kind' (by decide), ihInside, ihConditions,
      ihMore]
    simp only [Phrase.numbers, Expr.numbers_narrowed, Expr.numbers_call, List.append_assoc]
  | root kind kind' =>
    rw [numbersOf_cons kind (by decide), numbersOf_cons kind' (by decide)]
    rfl
  | rootSlash kind first more ihFirst ihMore =>
    rw [numbersOf_cons kind (by decide), ihFirst, ihMore]
    simp only [Phrase.numbers, Expr.numbers_path, List.flatMap_cons, List.append_assoc]
  | rootDescent kind first more ihFirst ihMore =>
    rw [numbersOf_cons kind (by decide), ihFirst, ihMore]
    simp only [Phrase.numbers, Expr.numbers_path, List.flatMap_cons, numbers_anyBelow,
      List.nil_append, List.append_assoc]
  | path first more ihFirst ihMore =>
    rw [ihFirst, ihMore]
    simp only [Phrase.numbers, Expr.numbers_path, List.flatMap_cons, List.append_assoc]
  | noArgument kind => exact numbersOf_cons kind (by decide) _
  | argument kind first more ihFirst ihMore =>
    rw [numbersOf_cons kind (by decide), ihFirst, ihMore, ← List.append_assoc]
    rfl
  | noStep kind => exact numbersOf_cons kind (by decide) _
  | slash kind first more ihFirst ihMore =>
    rw [numbersOf_cons kind (by decide), ihFirst, ihMore, ← List.append_assoc]
    rfl
  | descent kind first more ihFirst ihMore =>
    rw [numbersOf_cons kind (by decide), ihFirst, ihMore, ← List.append_assoc]
    rfl
  | step head conditions ihConditions =>
    rw [head.numbersOf_eq, ihConditions]
    rfl
  | noPredicate next => rfl
  | predicate kind first kind' more ihFirst ihMore =>
    rw [numbersOf_cons kind (by decide), ihFirst, numbersOf_cons kind' (by decide), ihMore,
      ← List.append_assoc]
    rfl

/-- A number is an operand, and its value is that of its text. -/
theorem reads_number {t : Token} (functions : Registry) (kind : t.kind = .number)
    (numeral : IsNumeral t.text.toList) (us : List Token) :
    Reads (operand functions (t :: us)) (.number (Number.ofText t.text)) us :=
  isRead_of_derives (.number kind (Number.ofUnsigned?_eq_ofText numeral))

end Parser

/-- A text stands for a number exactly if it is a numeral, with white space around it and a minus
sign in front if need be.  Every number that the lexer emits is a numeral, and as an operand it is
read as the number that its text stands for.  So no text is rejected for a number in it, and the
numbers in an expression are those of its tokens. -/
theorem parse_numbers (functions : Registry) (limit : Nat) :
    (∀ s, (Number.ofText s).isNaN = false ↔ ∃ front w back, s.toList = front ++ (w ++ back) ∧
      (∀ c ∈ front, Text.isBlank c) ∧ (∀ c ∈ back, Text.isBlank c) ∧ Number.IsSignedNumeral w) ∧
    (∀ t, Lexer.IsEmitted limit t → t.kind = .number → IsNumeral t.text.toList ∧
      ∀ us, Parser.Reads (Parser.operand functions (t :: us)) (.number (Number.ofText t.text)) us) ∧
    (∀ s text, parse functions limit s ≠ .error (.grammar (.invalidNumber text))) ∧
    ∀ s e, parse functions limit s = .ok e →
      ∃ ts, tokenize limit s = .ok ts ∧ e.numbers = numbersOf ts := by
  refine ⟨fun s => Number.isNaN_ofText_eq_false_iff, fun t ht kind => ?_,
    parse_ne_invalidNumber functions limit, fun s e he => ?_⟩
  · have hnumeral := Lexer.isNumeral_of_isEmitted ht kind
    exact ⟨hnumeral, Parser.reads_number functions kind hnumeral⟩
  · obtain ⟨ts, hts, hderives⟩ := parse_eq_ok.1 he
    have hnumbers : numbersOf ts = e.numbers ++ [] := hderives.numbers_eq
    exact ⟨ts, hts, by rw [hnumbers, List.append_nil]⟩

/-- A point may stand behind the digits or in front of them. -/
theorem parse_numbers_points : ∃ e, parse .standard 1 "1. = .5" = .ok e ∧
    e.numbers = [Number.ofText "1.", Number.ofText ".5"] ∧
    IsNumeral "1.".toList ∧ (Number.ofText " -.5 ").isNaN = false := by
  obtain ⟨htexts, hemits, -, hparsed⟩ := parse_numbers .standard 1
  have htokens : tokenize 1 "1. = .5" = .ok [⟨.number, "1.", 0⟩, ⟨.operator, "=", 3⟩,
      ⟨.number, ".5", 5⟩] := by decide +kernel
  have hok : (parse .standard 1 "1. = .5").isOk := by decide +kernel
  obtain ⟨e, he⟩ := exists_eq_ok_of_isOk hok
  obtain ⟨ts, hts, hnumbers⟩ := hparsed _ e he
  obtain rfl := Except.ok.inj (htokens.symm.trans hts)
  refine ⟨e, he, hnumbers, ?_, ?_⟩
  · exact (hemits _ (Lexer.isEmitted_of_run _ _ htokens ⟨.number, "1.", 0⟩ (by simp)) rfl).1
  · have hfive : ∀ c ∈ ['5'], c.isDigit := List.forall_mem_singleton.2 rfl
    have hnumeral : IsNumeral ([] ++ '.' :: ['5']) := .point (List.forall_mem_nil _) hfive (by simp)
    have hblank : ∀ c ∈ [' '], Text.isBlank c := List.forall_mem_singleton.2 (by decide)
    exact (htexts _).2 ⟨[' '], _, [' '], by decide, hblank, hblank, .minus hnumeral⟩

end XPath
