import XPath.Proofs.Expr.Chain
import XPath.Proofs.Expr.Grammar

/-!
# The parts of an expression

Arguments, predicates and operands are expressions again, at any depth.  What was asked of every
call while an expression was read holds of the calls among all its parts.

* `Expr.inner`, `Expr.induction`: the expressions directly inside, and induction on them;
* `Expr.parts`: an expression with all expressions inside it;
* `allowed_of_parse`: every call in an expression that was read is allowed.
-/

namespace XPath

/-! ### Directly inside -/

/-- The expressions directly inside an expression. -/
def Expr.inner : Expr → List Expr
  | .literal _ | .number _ | .variable _ => []
  | .call _ args => args
  | .path _ ss => ss.flatMap Step.predicates
  | .filter primary ps ss => primary :: (ps ++ ss.flatMap Step.predicates)
  | .compare _ l r => [l, r]
  | .connect _ l r => [l, r]

/-- What holds of an expression whenever it holds of the expressions directly inside holds of every
expression. -/
theorem Expr.induction {motive : Expr → Prop}
    (step : ∀ e : Expr, (∀ f ∈ e.inner, motive f) → motive e) (e : Expr) : motive e := by
  -- the recursor has a case for each kind of list in which expressions lie
  refine @Expr.rec motive (fun es => ∀ e ∈ es, motive e)
    (fun ss => ∀ s ∈ ss, ∀ p ∈ s.predicates, motive p) (fun s => ∀ p ∈ s.predicates, motive p)
    (fun s => step _ ?_) (fun x => step _ ?_) (fun name => step _ ?_)
    (fun name args ih => step _ ih) (fun absolute ss ih => step _ ?_)
    (fun primary ps ss ih ihps ihss => step _ ?_) (fun op l r ihl ihr => step _ ?_)
    (fun op l r ihl ihr => step _ ?_) ?_ ?_ ?_ ?_ (fun _ _ _ ih => ih) e
  · simp [inner]
  · simp [inner]
  · simp [inner]
  · intro f hf
    obtain ⟨s, hs, hf⟩ := List.mem_flatMap.1 hf
    exact ih s hs f hf
  · intro f hf
    rcases List.mem_cons.1 hf with rfl | hf
    · exact ih
    · rcases List.mem_append.1 hf with hf | hf
      · exact ihps f hf
      · obtain ⟨s, hs, hf⟩ := List.mem_flatMap.1 hf
        exact ihss s hs f hf
  · simp [inner, ihl, ihr]
  · simp [inner, ihl, ihr]
  · simp
  · exact fun _ _ ih ihs => List.forall_mem_cons.2 ⟨ih, ihs⟩
  · simp
  · exact fun _ _ ih ihs => List.forall_mem_cons.2 ⟨ih, ihs⟩

section Inner

variable {P : Expr → Prop} {primary : Expr} {ps : List Expr} {ss : List (Step Expr)}

theorem Expr.forall_inner_path {absolute : Bool}
    (hss : ∀ s ∈ ss, ∀ p ∈ s.predicates, P p) : ∀ p ∈ (Expr.path absolute ss).inner, P p := by
  intro p hp
  obtain ⟨s, hs, hp⟩ := List.mem_flatMap.1 hp
  exact hss s hs p hp

theorem Expr.forall_inner_filter (h : P primary) (hps : ∀ p ∈ ps, P p)
    (hss : ∀ s ∈ ss, ∀ p ∈ s.predicates, P p) :
    ∀ p ∈ (Expr.filter primary ps ss).inner, P p :=
  List.forall_mem_cons.2 ⟨h, List.forall_mem_append.2 ⟨hps, List.forall_mem_flatMap.2 hss⟩⟩

end Inner

/-! ### At any depth -/

mutual

/-- An expression with all expressions inside it. -/
def Expr.parts (e : Expr) : List Expr :=
  match e with
  | .literal _ | .number _ | .variable _ => [e]
  | .call _ args => e :: partsOfAll args
  | .path _ ss => e :: partsOfSteps ss
  | .filter primary ps ss => e :: (primary.parts ++ (partsOfAll ps ++ partsOfSteps ss))
  | .compare _ l r => e :: (l.parts ++ r.parts)
  | .connect _ l r => e :: (l.parts ++ r.parts)

def partsOfAll (es : List Expr) : List Expr :=
  match es with
  | [] => []
  | e :: es => e.parts ++ partsOfAll es

def partsOfStep (s : Step Expr) : List Expr :=
  match s with
  | ⟨_, _, ps⟩ => partsOfAll ps

def partsOfSteps (ss : List (Step Expr)) : List Expr :=
  match ss with
  | [] => []
  | s :: ss => partsOfStep s ++ partsOfSteps ss

end

theorem partsOfAll_eq (es : List Expr) : partsOfAll es = es.flatMap Expr.parts := by
  induction es with
  | nil => rw [partsOfAll, List.flatMap_nil]
  | cons e es ih => rw [partsOfAll, ih, List.flatMap_cons]

theorem partsOfSteps_eq (ss : List (Step Expr)) :
    partsOfSteps ss = (ss.flatMap Step.predicates).flatMap Expr.parts := by
  induction ss with
  | nil => rw [partsOfSteps, List.flatMap_nil, List.flatMap_nil]
  | cons s ss ih =>
    rw [partsOfSteps, ih, partsOfStep, partsOfAll_eq, List.flatMap_cons, List.flatMap_append]

/-- The parts of an expression are itself and the parts of what is directly inside. -/
theorem Expr.parts_eq (e : Expr) : e.parts = e :: e.inner.flatMap Expr.parts := by
  cases e with
  | literal s => rw [parts]; rfl
  | number x => rw [parts]; rfl
  | «variable» name => rw [parts]; rfl
  | call name args => rw [parts, partsOfAll_eq]; rfl
  | path absolute ss => rw [parts, partsOfSteps_eq]; rfl
  | filter primary ps ss =>
    rw [parts, partsOfAll_eq, partsOfSteps_eq, inner, List.flatMap_cons, List.flatMap_append]
  | compare op l r => rw [parts]; simp [inner]
  | connect op l r => rw [parts]; simp [inner]

theorem Expr.mem_parts {e p : Expr} : p ∈ e.parts ↔ p = e ∨ ∃ f ∈ e.inner, p ∈ f.parts := by
  rw [parts_eq, List.mem_cons, List.mem_flatMap]

theorem Expr.mem_parts_self (e : Expr) : e ∈ e.parts :=
  mem_parts.2 (.inl rfl)

theorem Expr.parts_subset_of_inner {e f : Expr} (hf : f ∈ e.inner) : f.parts ⊆ e.parts :=
  fun _ hp => mem_parts.2 (.inr ⟨f, hf, hp⟩)

/-! ### Calls that are allowed -/

/-- Every call in an expression is allowed. -/
def Expr.Allowed (functions : Registry) (e : Expr) : Prop :=
  ∀ name args, .call name args ∈ e.parts → functions.check name args.length = .ok ()

variable {functions : Registry}

/-- All calls in an expression are allowed if its own is, should it be one, and those directly
inside are. -/
theorem Expr.allowed_of_inner {e : Expr}
    (hself : ∀ name args, .call name args = e → functions.check name args.length = .ok ())
    (hinner : ∀ f ∈ e.inner, f.Allowed functions) : e.Allowed functions := by
  intro name args h
  rcases mem_parts.1 h with h | ⟨f, hf, h⟩
  · exact hself name args h
  · exact hinner f hf name args h

theorem Expr.allowed_variable (name : String) : (Expr.variable name).Allowed functions :=
  allowed_of_inner (by simp) (by simp [inner])

theorem Expr.allowed_call {name : String} {args : List Expr}
    (h : functions.check name args.length = .ok ()) (hargs : ∀ e ∈ args, e.Allowed functions) :
    (Expr.call name args).Allowed functions := by
  refine allowed_of_inner ?_ hargs
  intro name' args' heq
  cases heq
  exact h

theorem Expr.allowed_apply (op : Operator) (l r : Expr) (hl : l.Allowed functions)
    (hr : r.Allowed functions) : (op.apply l r).Allowed functions := by
  have hinner : (op.apply l r).inner = [l, r] := by cases op <;> rfl
  refine allowed_of_inner ?_ ?_
  · intro name args heq
    cases op <;> simp [Operator.apply] at heq
  · rw [hinner]
    simp [hl, hr]

theorem Expr.allowed_path {absolute : Bool} {ss : List (Step Expr)}
    (hss : ∀ s ∈ ss, ∀ p ∈ s.predicates, p.Allowed functions) :
    (Expr.path absolute ss).Allowed functions :=
  allowed_of_inner (by simp) (forall_inner_path hss)

theorem Expr.allowed_narrowed {primary : Expr} {ps : List Expr} {ss : List (Step Expr)}
    (h : primary.Allowed functions) (hps : ∀ p ∈ ps, p.Allowed functions)
    (hss : ∀ s ∈ ss, ∀ p ∈ s.predicates, p.Allowed functions) :
    (Parser.narrowed primary ps ss).Allowed functions := by
  unfold Parser.narrowed
  split
  · exact h
  · exact allowed_of_inner (by simp) (forall_inner_filter h hps hss)

namespace Parser

/-- Every expression in a phrase satisfies `P`. -/
def Phrase.All (P : Expr → Prop) : Phrase → Prop
  | .expression e => P e
  | .chain ops => ∀ o ∈ ops, P o.2
  | .operand e => P e
  | .arguments es => ∀ e ∈ es, P e
  | .steps ss => ∀ s ∈ ss, ∀ p ∈ s.predicates, P p
  | .step s => ∀ p ∈ s.predicates, P p
  | .predicates es => ∀ e ∈ es, P e

/-- The step that two slashes stand for has no predicates. -/
theorem Phrase.all_anyBelow {P : Expr → Prop} {ss : List (Step Expr)}
    (h : Phrase.All P (.steps ss)) : Phrase.All P (.steps (.anyBelow :: ss)) :=
  List.forall_mem_cons.2 ⟨by simp [Step.anyBelow], h⟩

/-- Every call in a phrase that is derived is allowed. -/
theorem allowed_of_derives {ph : Phrase} {ts us : List Token} (h : Derives functions ph ts us) :
    ph.All (Expr.Allowed functions) := by
  induction h with
  | expression _ _ hfirst hops => exact assemble_of_apply Expr.allowed_apply hfirst hops
  | noOperator => exact fun o ho => by simp at ho
  | operator _ _ _ hright hmore => exact List.forall_mem_cons.2 ⟨hright, hmore⟩
  | string => exact Expr.allowed_of_inner (by simp) (by simp [Expr.inner])
  | number => exact Expr.allowed_of_inner (by simp) (by simp [Expr.inner])
  | variableName _ _ _ hconditions hmore =>
    exact Expr.allowed_narrowed (Expr.allowed_variable _) hconditions hmore
  | call _ _ allowed _ _ hinside hconditions hmore =>
    exact Expr.allowed_narrowed (Expr.allowed_call allowed hinside) hconditions hmore
  | prefixedCall _ _ _ allowed _ _ hinside hconditions hmore =>
    exact Expr.allowed_narrowed (Expr.allowed_call allowed hinside) hconditions hmore
  | root => exact Expr.allowed_path (by simp)
  | rootSlash _ _ _ hfirst hmore =>
    exact Expr.allowed_path (List.forall_mem_cons.2 ⟨hfirst, hmore⟩)
  | rootDescent _ _ _ hfirst hmore =>
    exact Expr.allowed_path (Phrase.all_anyBelow (List.forall_mem_cons.2 ⟨hfirst, hmore⟩))
  | path _ _ hfirst hmore => exact Expr.allowed_path (List.forall_mem_cons.2 ⟨hfirst, hmore⟩)
  | noArgument => exact fun e he => by simp at he
  | argument _ _ _ hfirst hmore => exact List.forall_mem_cons.2 ⟨hfirst, hmore⟩
  | noStep => exact fun s hs => by simp at hs
  | slash _ _ _ hfirst hmore => exact List.forall_mem_cons.2 ⟨hfirst, hmore⟩
  | descent _ _ _ hfirst hmore =>
    exact Phrase.all_anyBelow (List.forall_mem_cons.2 ⟨hfirst, hmore⟩)
  | step _ _ hconditions => exact hconditions
  | noPredicate => exact fun e he => by simp at he
  | predicate _ _ _ _ hfirst hmore => exact List.forall_mem_cons.2 ⟨hfirst, hmore⟩

end Parser

/-- Every call in an expression that was read is allowed. -/
theorem allowed_of_parse {limit : Nat} {s : String} {e : Expr}
    (h : parse functions limit s = .ok e) : e.Allowed functions := by
  obtain ⟨ts, -, hts⟩ := parse_eq_ok.1 h
  exact Parser.allowed_of_derives hts

end XPath
