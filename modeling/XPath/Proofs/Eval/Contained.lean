import XPath.Eval
import XPath.Proofs.Calls
import XPath.Proofs.Expr.Parts
import XPath.Proofs.Tree.Direction

/-!
# Which errors an evaluation ends in

An expression is evaluated by asking for its parts, so its errors are those of its parts and what
the asking adds.  In a tree whose links agree, with a registry that is faithful, nothing is added
but errors over types and over variables.

* `Value.Within`: a value whose nodes satisfy a condition;
* `Env.Grounded`: what the tree, the registry and the variables must satisfy;
* `Env.Expects`: the errors that remain;
* `evaluateAll_ends` and its kin: each part of the evaluator;
* `Env.Contains`, `contains_call` and its kin: each form of an expression;
* `contains_of_parts`: expressions.
-/

namespace XPath

variable {N : Type}

/-- Every node of a node-set satisfies `S`. -/
def Value.Within (S : N → Prop) : Value N → Prop
  | .nodes ns => ∀ n ∈ ns, S n
  | _ => True

theorem Value.IsScalar.within {S : N → Prop} {v : Value N} (h : v.IsScalar) : v.Within S := by
  cases v with
  | nodes ns => exact h.elim
  | string s => trivial
  | number x => trivial
  | boolean b => trivial

/-- The links of the tree agree, the registry allows no more than the functions take, and variables
hold nodes of the tree. -/
structure Env.Grounded (env : Env N) : Prop where
  /-- The links agree at the nodes that can be reached from the root. -/
  linked : env.tree.Linked env.root
  /-- Calls that are allowed are calls of defined functions within their arities. -/
  faithful : env.functions.Faithful
  /-- The nodes in variables can be reached from the root. -/
  bindings : ∀ name v, env.bindings.get? name = some v → v.Within (env.tree.Reaches env.root)

/-- The errors that remain: a wrong type, or a variable among the given expressions that has no
value where that is an error. -/
def Env.Expects (env : Env N) (ps : List Expr) : EvalError → Prop
  | .conversion _ => True
  | .unknownVariable name =>
    env.strict ∧ .variable name ∈ ps ∧ env.bindings.get? name = none
  | _ => False

theorem Env.expects_of_isConversion {env : Env N} {ps : List Expr} {err : EvalError}
    (h : err.IsConversion) : env.Expects ps err := by
  cases err <;> trivial

/-! ### The parts of the evaluator -/

theorem keepWhere_ends {E : EvalError → Prop}
    {value : N → Nat → Except EvalError (Value N)} (ns : List N)
    (h : ∀ n ∈ ns, ∀ position, Ends E (fun _ => True) (value n position)) :
    ∀ position, Ends E (fun ms => ms.Sublist ns) (keepWhere value position ns) := by
  induction ns with
  | nil => exact fun _ => List.Sublist.refl []
  | cons n ns ih =>
    intro position
    have hrest := ih fun m hm => h m (List.mem_cons_of_mem n hm)
    refine (h n List.mem_cons_self position).bind ?_
    intro v _
    refine (hrest (position + 1)).bind ?_
    intro ms hms
    rw [Ends.pure_iff]
    split
    · exact hms.cons_cons n
    · exact hms.cons n

variable [DecidableEq N] (env : Env N) {E : EvalError → Prop}

theorem evaluateAll_ends {P : Value N → Prop} (es : List Expr) (focus : Focus N)
    (h : ∀ e ∈ es, Ends E P (evaluate env e focus)) :
    Ends E (fun vs => vs.length = es.length) (evaluateAll env es focus) := by
  induction es with
  | nil =>
    rw [evaluateAll_nil]
    rfl
  | cons e es ih =>
    have hrest := ih fun f hf => h f (List.mem_cons_of_mem e hf)
    rw [evaluateAll_cons]
    refine (h e List.mem_cons_self).bind ?_
    intro v _
    refine hrest.bind ?_
    intro vs hvs
    exact congrArg (· + 1) hvs

theorem filterAll_ends {S : N → Prop} (ps : List Expr)
    (h : ∀ p ∈ ps, ∀ focus : Focus N, S focus.node →
      Ends E (fun _ => True) (evaluate env p focus)) :
    ∀ ns, (∀ n ∈ ns, S n) → Ends E (fun ms => ms.Sublist ns) (filterAll env ps ns) := by
  induction ps with
  | nil =>
    intro ns _
    rw [filterAll_nil]
    exact List.Sublist.refl ns
  | cons p ps ih =>
    intro ns hns
    rw [filterAll_cons]
    refine (keepWhere_ends ns (fun n hn position => ?_) 1).bind ?_
    · exact h p List.mem_cons_self ⟨n, position, ns.length⟩ (hns n hn)
    · intro ms hms
      have hrest := ih fun q hq => h q (List.mem_cons_of_mem p hq)
      refine (hrest ms fun m hm => hns m (hms.subset hm)).mono (fun _ he => he) ?_
      exact fun _ hks => hks.trans hms

section Steps

variable {env} {root : N} (hlinked : env.tree.Linked root)
include hlinked

/-- A step leads from nodes of the tree to nodes of the tree. -/
theorem select_ends (s : Step Expr)
    (h : ∀ p ∈ s.predicates, ∀ focus : Focus N, env.tree.Reaches root focus.node →
      Ends E (fun _ => True) (evaluate env p focus)) {n : N} (hn : env.tree.Reaches root n) :
    Ends E (fun ms => ∀ m ∈ ms, env.tree.Reaches root m) (select env s n) := by
  obtain ⟨axis, test, ps⟩ := s
  obtain ⟨ns, halong, hns⟩ := hlinked.along_eq hn axis
  rw [select_step, halong]
  have hfound : ∀ m ∈ ns.filter (test.accepts env.tree axis), env.tree.Reaches root m :=
    fun m hm => hns m (List.mem_filter.1 hm).1
  refine (filterAll_ends env ps h _ hfound).mono (fun _ he => he) ?_
  exact fun ms hms m hm => hfound m (hms.subset hm)

theorem evaluateSteps_ends (ss : List (Step Expr))
    (h : ∀ s ∈ ss, ∀ p ∈ s.predicates, ∀ focus : Focus N, env.tree.Reaches root focus.node →
      Ends E (fun _ => True) (evaluate env p focus)) :
    ∀ ns, (∀ n ∈ ns, env.tree.Reaches root n) →
      Ends E (fun ms => ∀ m ∈ ms, env.tree.Reaches root m) (evaluateSteps env ss ns) := by
  induction ss with
  | nil =>
    intro ns hns
    rw [evaluateSteps_nil]
    exact hns
  | cons s ss ih =>
    intro ns hns
    have hselect := Ends.mapM ns fun n hn =>
      select_ends hlinked s (h s List.mem_cons_self) (hns n hn)
    have hrest := ih fun t ht => h t (List.mem_cons_of_mem s ht)
    rw [evaluateSteps_cons]
    refine hselect.bind ?_
    intro found hfound
    refine hrest _ ?_
    intro m hm
    obtain ⟨ms, hms, hm⟩ := List.mem_flatten.1 (Tree.mem_inOrder.1 hm)
    exact hfound.2 ms hms m hm

end Steps

/-! ### Expressions -/

/-- Wherever the expression is evaluated in the tree, its value is of the tree and its errors are
among those that the given expressions may cause. -/
def Env.Contains (ps : List Expr) (e : Expr) : Prop :=
  ∀ focus : Focus N, env.tree.Reaches env.root focus.node →
    Ends (env.Expects ps) (Value.Within (env.tree.Reaches env.root)) (evaluate env e focus)

section Expressions

variable {env} {ps : List Expr}

/-- A predicate is asked for its value only to be looked at. -/
theorem Env.Contains.ends {e : Expr} (h : env.Contains ps e) (focus : Focus N)
    (hfocus : env.tree.Reaches env.root focus.node) :
    Ends (env.Expects ps) (fun _ => True) (evaluate env e focus) :=
  (h focus hfocus).mono (fun _ he => he) fun _ _ => trivial

variable (hg : env.Grounded)

theorem contains_literal (s : String) : env.Contains ps (.literal s) := by
  intro focus _
  rw [evaluate_literal]
  trivial

theorem contains_number (x : Float) : env.Contains ps (.number x) := by
  intro focus _
  rw [evaluate_number]
  trivial

include hg in
theorem contains_variable {name : String} (h : .variable name ∈ ps) :
    env.Contains ps (.variable name) := by
  intro focus _
  rw [evaluate_variable, Env.variable]
  cases hget : env.bindings.get? name with
  | some v => exact hg.bindings name v hget
  | none =>
    show Ends _ _ (if env.strict then _ else _)
    split
    · rename_i hstrict
      exact ⟨hstrict, h, hget⟩
    · trivial

include hg in
theorem contains_call {name : String} {args : List Expr}
    (h : env.functions.check name args.length = .ok ()) (hargs : ∀ e ∈ args, env.Contains ps e) :
    env.Contains ps (.call name args) := by
  intro focus hfocus
  rw [evaluate_call]
  refine (evaluateAll_ends env args focus fun e he => hargs e he focus hfocus).bind ?_
  intro vs hvs
  rw [← hvs] at h
  refine (callFunction_ends hg.faithful h focus).mono ?_ ?_
  · exact fun _ => Env.expects_of_isConversion
  · exact fun _ => Value.IsScalar.within

include hg in
theorem contains_path {absolute : Bool} {steps : List (Step Expr)}
    (hsteps : ∀ p ∈ steps.flatMap Step.predicates, env.Contains ps p) :
    env.Contains ps (.path absolute steps) := by
  intro focus hfocus
  have hstart : ∀ n ∈ [if absolute then env.root else focus.node],
      env.tree.Reaches env.root n := by
    intro n hn
    rw [List.mem_singleton.1 hn]
    split
    · exact .root
    · exact hfocus
  rw [evaluate_path]
  refine (evaluateSteps_ends hg.linked steps (fun s hs p hp => ?_) _ hstart).bind ?_
  · exact (hsteps p (List.mem_flatMap.2 ⟨s, hs, hp⟩)).ends
  · exact fun _ hms => hms

include hg in
theorem contains_filter {primary : Expr} {predicates : List Expr} {steps : List (Step Expr)}
    (hprimary : env.Contains ps primary) (hpredicates : ∀ p ∈ predicates, env.Contains ps p)
    (hsteps : ∀ p ∈ steps.flatMap Step.predicates, env.Contains ps p) :
    env.Contains ps (.filter primary predicates steps) := by
  intro focus hfocus
  rw [evaluate_filter]
  refine (hprimary focus hfocus).bind ?_
  intro v hv
  have hnodes := v.nodes?_ends "filtered expression"
  refine (hnodes.mono (fun _ => Env.expects_of_isConversion) fun _ h => h).bind ?_
  intro ns hvns
  rw [hvns] at hv
  have hns : ∀ n ∈ env.tree.inOrder ns, env.tree.Reaches env.root n :=
    fun n hn => hv n (Tree.mem_inOrder.1 hn)
  refine (filterAll_ends env predicates (fun p hp => (hpredicates p hp).ends) _ hns).bind ?_
  intro kept hkept
  have hreached : ∀ n ∈ kept, env.tree.Reaches env.root n := fun n hn => hns n (hkept.subset hn)
  refine (evaluateSteps_ends hg.linked steps (fun s hs p hp => ?_) kept hreached).bind ?_
  · exact (hsteps p (List.mem_flatMap.2 ⟨s, hs, hp⟩)).ends
  · exact fun _ hms => hms

theorem contains_compare {op : Comparison} {left right : Expr} (hleft : env.Contains ps left)
    (hright : env.Contains ps right) : env.Contains ps (.compare op left right) := by
  intro focus hfocus
  rw [evaluate_compare]
  refine (hleft focus hfocus).bind ?_
  intro l _
  refine (hright focus hfocus).bind ?_
  intro r _
  trivial

theorem contains_connect {op : Connective} {left right : Expr} (hleft : env.Contains ps left)
    (hright : env.Contains ps right) : env.Contains ps (.connect op left right) := by
  intro focus hfocus
  rw [evaluate_connect]
  refine (hleft focus hfocus).bind ?_
  intro l _
  split
  · trivial
  · refine (hright focus hfocus).bind ?_
    intro r _
    trivial

include hg in
/-- An expression whose calls are allowed is contained. -/
theorem contains_of_parts (hcalls : ∀ name args, .call name args ∈ ps →
    env.functions.check name args.length = .ok ()) (e : Expr) :
    e.parts ⊆ ps → env.Contains ps e := by
  induction e using Expr.induction with
  | step e ih =>
    intro h
    have hinner : ∀ f ∈ e.inner, env.Contains ps f :=
      fun f hf => ih f hf fun p hp => h (Expr.parts_subset_of_inner hf hp)
    have hself : e ∈ ps := h e.mem_parts_self
    cases e with
    | literal s => exact contains_literal s
    | number x => exact contains_number x
    | «variable» name => exact contains_variable hg hself
    | call name args => exact contains_call hg (hcalls name args hself) hinner
    | path absolute steps => exact contains_path hg hinner
    | filter primary predicates steps =>
      obtain ⟨hprimary, hrest⟩ := List.forall_mem_cons.1 hinner
      obtain ⟨hpredicates, hsteps⟩ := List.forall_mem_append.1 hrest
      exact contains_filter hg hprimary hpredicates hsteps
    | compare op left right =>
      have hleft := hinner left List.mem_cons_self
      have hright := hinner right (List.mem_cons_of_mem _ List.mem_cons_self)
      exact contains_compare hleft hright
    | connect op left right =>
      have hleft := hinner left List.mem_cons_self
      have hright := hinner right (List.mem_cons_of_mem _ List.mem_cons_self)
      exact contains_connect hleft hright

end Expressions

end XPath
