import Mathlib.Data.List.Forall2
import XPath.Eval
import XPath.Proofs.Expr.Parts
import XPath.Proofs.Outcome

/-!
# Two evaluations side by side

The same expression is evaluated twice, in environments that differ only over variables.  If a
relation between values is kept by everything that looks at a value, then outcomes that agree for
the variables agree for the expression.  An expression that is no variable makes its value anew, so
its values do not only correspond, they are equal.

* `Env.rebind`: the same environment with other variables;
* `Value.Coupling`: a relation between values that no conversion and no comparison can tell;
* `Env.Respects`: a function that cannot tell related arguments;
* `filterAll_agree` and its kin: each part of the evaluator;
* `agree_call` and its kin, `agree_of_inner`: each form of an expression;
* `couples_of_parts`, `agree_of_parts`: expressions.
-/

namespace XPath

variable {N : Type}

/-- The same environment with other variables. -/
def Env.rebind (env : Env N) (bindings : Bindings N) (strict : Bool) : Env N :=
  { env with bindings := bindings, strict := strict }

@[simp] theorem Env.tree_rebind (env : Env N) (bindings : Bindings N) (strict : Bool) :
    (env.rebind bindings strict).tree = env.tree := rfl

/-- A logical operator looks at truth values only. -/
theorem Connective.values_congr (op : Connective) {l l' r r' : Value N} (hl : l.toBool = l'.toBool)
    (hr : r.toBool = r'.toBool) : op.values l r = op.values l' r' := by
  cases op with
  | or => rw [values, values, hl, hr]
  | and => rw [values, values, hl, hr]

/-- The function has equal values, or equal errors, for related arguments. -/
def Env.Respects (env : Env N) (R : Value N → Value N → Prop) (name : String) : Prop :=
  ∀ vs ws focus, List.Forall₂ R vs ws →
    callFunction env.tree env.functions name vs focus
      = callFunction env.tree env.functions name ws focus

theorem Env.respects_eq (env : Env N) (name : String) : env.Respects (· = ·) name := by
  intro vs ws focus h
  rw [List.forall₂_eq_eq_eq] at h
  rw [h]

variable [DecidableEq N]

/-- A relation between values that an evaluation cannot tell from equality. -/
structure Value.Coupling (T : Tree N) (R : Value N → Value N → Prop) : Prop where
  /-- Every value is related to itself. -/
  refl : ∀ v, R v v
  /-- Related values have the same truth value. -/
  toBool : ∀ {v w}, R v w → v.toBool = w.toBool
  /-- As predicates they keep the same positions. -/
  keeps : ∀ {v w} (position : Nat), R v w → XPath.keeps position v = XPath.keeps position w
  /-- They have the same nodes in document order, or both have none for the same reason. -/
  nodes : ∀ {v w} (role : String), R v w → Agree (fun _ => False)
    (fun ns ms => T.inOrder ns = T.inOrder ms) (v.nodes? role) (w.nodes? role)
  /-- They compare alike. -/
  compare : ∀ {v w v' w'} (op : Comparison), R v w → R v' w' →
    op.values T v v' = op.values T w w'

/-- Equal values are coupled. -/
theorem Value.coupling_eq (T : Tree N) : Value.Coupling T (· = ·) where
  refl _ := rfl
  toBool h := congrArg Value.toBool h
  keeps position h := congrArg (XPath.keeps position) h
  nodes role h := h ▸ (Agree.refl _).mono fun _ _ heq => congrArg T.inOrder heq
  compare op h h' := by rw [h, h']

/-! ### The parts of the evaluator -/

variable {env : Env N} {bindings : Bindings N} {strict : Bool} {E : EvalError → Prop}
  {R : Value N → Value N → Prop}

/-- The outcomes of an expression in the two environments agree, wherever it is evaluated. -/
def Env.Couples (env : Env N) (bindings : Bindings N) (strict : Bool) (E : EvalError → Prop)
    (R : Value N → Value N → Prop) (e : Expr) : Prop :=
  ∀ focus, Agree E R (evaluate env e focus) (evaluate (env.rebind bindings strict) e focus)

theorem evaluateAll_agree (es : List Expr) (h : ∀ e ∈ es, env.Couples bindings strict E R e)
    (focus : Focus N) : Agree E (List.Forall₂ R) (evaluateAll env es focus)
      (evaluateAll (env.rebind bindings strict) es focus) := by
  induction es with
  | nil =>
    rw [evaluateAll_nil, evaluateAll_nil]
    exact .ok .nil
  | cons e es ih =>
    have hrest := ih fun f hf => h f (List.mem_cons_of_mem e hf)
    rw [evaluateAll_cons, evaluateAll_cons]
    refine (h e List.mem_cons_self focus).bind ?_
    intro v w hvw
    refine hrest.bind ?_
    intro vs ws hvs
    exact .ok (.cons hvw hvs)

section Coupled

variable (hR : Value.Coupling env.tree R)
include hR

theorem keepWhere_agree {value value' : N → Nat → Except EvalError (Value N)} (ns : List N)
    (h : ∀ n ∈ ns, ∀ position, Agree E R (value n position) (value' n position)) :
    ∀ position, Agree E (· = ·) (keepWhere value position ns) (keepWhere value' position ns) := by
  induction ns with
  | nil => exact fun _ => .ok rfl
  | cons n ns ih =>
    intro position
    have hrest := ih fun m hm => h m (List.mem_cons_of_mem n hm)
    rw [keepWhere, keepWhere]
    refine (h n List.mem_cons_self position).bind ?_
    intro v w hvw
    refine (hrest (position + 1)).bind ?_
    rintro ms _ rfl
    rw [hR.keeps position hvw]
    exact .ok rfl

theorem filterAll_agree (ps : List Expr) (h : ∀ p ∈ ps, env.Couples bindings strict E R p) :
    ∀ ns, Agree E (· = ·) (filterAll env ps ns) (filterAll (env.rebind bindings strict) ps ns) := by
  induction ps with
  | nil =>
    intro ns
    rw [filterAll_nil, filterAll_nil]
    exact .ok rfl
  | cons p ps ih =>
    intro ns
    have hrest := ih fun q hq => h q (List.mem_cons_of_mem p hq)
    rw [filterAll_cons, filterAll_cons]
    refine (keepWhere_agree hR ns (fun n _ position => ?_) 1).bind ?_
    · exact h p List.mem_cons_self ⟨n, position, ns.length⟩
    · rintro ms _ rfl
      exact hrest ms

theorem select_agree (s : Step Expr) (h : ∀ p ∈ s.predicates, env.Couples bindings strict E R p)
    (n : N) : Agree E (· = ·) (select env s n) (select (env.rebind bindings strict) s n) := by
  obtain ⟨axis, test, ps⟩ := s
  rw [select_step, select_step]
  refine (Agree.refl _).bind ?_
  rintro ns _ rfl
  exact filterAll_agree hR ps h ns

theorem evaluateSteps_agree (ss : List (Step Expr))
    (h : ∀ p ∈ ss.flatMap Step.predicates, env.Couples bindings strict E R p) :
    ∀ ns, Agree E (· = ·) (evaluateSteps env ss ns)
      (evaluateSteps (env.rebind bindings strict) ss ns) := by
  induction ss with
  | nil =>
    intro ns
    rw [evaluateSteps_nil, evaluateSteps_nil]
    exact .ok rfl
  | cons s ss ih =>
    intro ns
    rw [List.flatMap_cons, List.forall_mem_append] at h
    rw [evaluateSteps_cons, evaluateSteps_cons]
    refine (Agree.mapM ns fun n _ => select_agree hR s h.1 n).bind ?_
    rintro found _ rfl
    exact ih h.2 _

/-! ### Expressions -/

omit hR in
theorem agree_call {name : String} {args : List Expr} (hname : env.Respects R name)
    (hargs : ∀ e ∈ args, env.Couples bindings strict E R e) :
    env.Couples bindings strict E (· = ·) (.call name args) := by
  intro focus
  rw [evaluate_call, evaluate_call]
  refine (evaluateAll_agree args hargs focus).bind ?_
  intro vs ws hvs
  rw [hname vs ws focus hvs]
  exact .refl _

theorem agree_path {absolute : Bool} {steps : List (Step Expr)}
    (hsteps : ∀ p ∈ steps.flatMap Step.predicates, env.Couples bindings strict E R p) :
    env.Couples bindings strict E (· = ·) (.path absolute steps) := by
  intro focus
  rw [evaluate_path, evaluate_path]
  refine (evaluateSteps_agree hR steps hsteps _).bind ?_
  rintro ns _ rfl
  exact .ok rfl

/-- Related node-sets are filtered from the same list, since they are brought into document order
first. -/
theorem agree_filter {primary : Expr} {predicates : List Expr} {steps : List (Step Expr)}
    (hprimary : env.Couples bindings strict E R primary)
    (hpredicates : ∀ p ∈ predicates, env.Couples bindings strict E R p)
    (hsteps : ∀ p ∈ steps.flatMap Step.predicates, env.Couples bindings strict E R p) :
    env.Couples bindings strict E (· = ·) (.filter primary predicates steps) := by
  intro focus
  rw [evaluate_filter, evaluate_filter]
  refine (hprimary focus).bind ?_
  intro v w hvw
  have hnodes := hR.nodes "filtered expression" hvw
  refine (hnodes.mapError EvalError.conversion).bind ?_
  intro ns ms hsame
  rw [Env.tree_rebind, hsame]
  refine (filterAll_agree hR predicates hpredicates _).bind ?_
  rintro kept _ rfl
  refine (evaluateSteps_agree hR steps hsteps kept).bind ?_
  rintro found _ rfl
  exact .ok rfl

theorem agree_compare {op : Comparison} {left right : Expr}
    (hleft : env.Couples bindings strict E R left)
    (hright : env.Couples bindings strict E R right) :
    env.Couples bindings strict E (· = ·) (.compare op left right) := by
  intro focus
  rw [evaluate_compare, evaluate_compare]
  refine (hleft focus).bind ?_
  intro l l' hl
  refine (hright focus).bind ?_
  intro r r' hr
  rw [Env.tree_rebind, hR.compare op hl hr]
  exact .ok rfl

/-- The left operand settles the value in both evaluations or in neither. -/
theorem agree_connect {op : Connective} {left right : Expr}
    (hleft : env.Couples bindings strict E R left)
    (hright : env.Couples bindings strict E R right) :
    env.Couples bindings strict E (· = ·) (.connect op left right) := by
  intro focus
  rw [evaluate_connect, evaluate_connect]
  refine (hleft focus).bind ?_
  intro l l' hl
  rw [hR.toBool hl]
  split
  · exact .ok rfl
  · refine (hright focus).bind ?_
    intro r r' hr
    rw [op.values_congr (hR.toBool hl) (hR.toBool hr)]
    exact .ok rfl

/-- An expression that is no variable has equal values, if the expressions directly inside have
related values and its function, should it be a call, cannot tell them. -/
theorem agree_of_inner {e : Expr} (hvar : ∀ name, e ≠ .variable name)
    (hcall : ∀ name args, e = .call name args → env.Respects R name)
    (hinner : ∀ f ∈ e.inner, env.Couples bindings strict E R f) :
    env.Couples bindings strict E (· = ·) e := by
  cases e with
  | literal s =>
    intro focus
    rw [evaluate_literal, evaluate_literal]
    exact .ok rfl
  | number x =>
    intro focus
    rw [evaluate_number, evaluate_number]
    exact .ok rfl
  | «variable» name => exact absurd rfl (hvar name)
  | call name args => exact agree_call (hcall name args rfl) hinner
  | path absolute steps => exact agree_path hR hinner
  | filter primary predicates steps =>
    obtain ⟨hprimary, hrest⟩ := List.forall_mem_cons.1 hinner
    obtain ⟨hpredicates, hsteps⟩ := List.forall_mem_append.1 hrest
    exact agree_filter hR hprimary hpredicates hsteps
  | compare op left right =>
    have hleft := hinner left List.mem_cons_self
    have hright := hinner right (List.mem_cons_of_mem _ List.mem_cons_self)
    exact agree_compare hR hleft hright
  | connect op left right =>
    have hleft := hinner left List.mem_cons_self
    have hright := hinner right (List.mem_cons_of_mem _ List.mem_cons_self)
    exact agree_connect hR hleft hright

variable {ps : List Expr}

/-- If the variables among the parts of an expression have related values and its functions cannot
tell them, the expression has related values. -/
theorem couples_of_parts
    (hvars : ∀ name, .variable name ∈ ps →
      Agree E R (env.variable name) ((env.rebind bindings strict).variable name))
    (hcalls : ∀ name args, .call name args ∈ ps → env.Respects R name) (e : Expr) :
    e.parts ⊆ ps → env.Couples bindings strict E R e := by
  induction e using Expr.induction with
  | step e ih =>
    intro h focus
    have hself : e ∈ ps := h e.mem_parts_self
    by_cases hvar : ∃ name, e = .variable name
    · obtain ⟨name, rfl⟩ := hvar
      rw [evaluate_variable, evaluate_variable]
      exact hvars name hself
    · have hinner : ∀ f ∈ e.inner, env.Couples bindings strict E R f :=
        fun f hf => ih f hf fun p hp => h (Expr.parts_subset_of_inner hf hp)
      refine (agree_of_inner hR (fun name heq => hvar ⟨name, heq⟩) ?_ hinner focus).mono ?_
      · rintro name args rfl
        exact hcalls name args hself
      · rintro v _ rfl
        exact hR.refl v

/-- Unless it is a variable itself, its values are equal. -/
theorem agree_of_parts
    (hvars : ∀ name, .variable name ∈ ps →
      Agree E R (env.variable name) ((env.rebind bindings strict).variable name))
    (hcalls : ∀ name args, .call name args ∈ ps → env.Respects R name) {e : Expr}
    (h : e.parts ⊆ ps) (hvar : ∀ name, e ≠ .variable name) :
    env.Couples bindings strict E (· = ·) e := by
  refine agree_of_inner hR hvar ?_ fun f hf => ?_
  · rintro name args rfl
    exact hcalls name args (h (Expr.mem_parts_self _))
  · exact couples_of_parts hR hvars hcalls f fun p hp => h (Expr.parts_subset_of_inner hf hp)

end Coupled

end XPath
