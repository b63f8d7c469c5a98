import XPath.Proofs.Expr.Parts

/-!
# Precedence

The language has no parentheses, so in an expression that was read an operator never stands below
one that binds more tightly, and operators of one level lean to the left.

* `Expr.Ranked`: which operators may not be the children of which;
* `Expr.level`, `ranked_apply`: the same by numbers;
* `reduceLevel_normal`, `assemble_normal`: grouping a chain of operators;
* `Parser.Derives.normal`: whatever is read is ranked at every node.
-/

namespace XPath

/-! ### Operators above operators -/

namespace Expr

def isOr : Expr → Bool
  | .connect .or _ _ => true
  | _ => false

def isAnd : Expr → Bool
  | .connect .and _ _ => true
  | _ => false

def isLogical : Expr → Bool
  | .connect _ _ _ => true
  | _ => false

def isComparison : Expr → Bool
  | .compare _ _ _ => true
  | _ => false

def isEquality : Expr → Bool
  | .compare op _ _ => op.isEquality
  | _ => false

/-- What may not stand directly below an operator, on either side or on the right only. -/
structure Ranked (e : Expr) : Prop where
  noOrBelowAnd : ∀ l r, e = .connect .and l r → l.isOr = false ∧ r.isOr = false
  noLogicalBelowComparison : ∀ op l r, e = .compare op l r →
    l.isLogical = false ∧ r.isLogical = false
  noEqualityBelowOrder : ∀ op l r, e = .compare op l r → op.isEquality = false →
    l.isEquality = false ∧ r.isEquality = false
  noOrRightOfOr : ∀ l r, e = .connect .or l r → r.isOr = false
  noAndRightOfAnd : ∀ l r, e = .connect .and l r → r.isAnd = false
  noEqualityRightOfEquality : ∀ op l r, e = .compare op l r → op.isEquality = true →
    r.isEquality = false
  noComparisonRightOfOrder : ∀ op l r, e = .compare op l r → op.isEquality = false →
    r.isComparison = false

/-- At every node the operators are ranked. -/
def Normal (e : Expr) : Prop :=
  ∀ p ∈ e.parts, p.Ranked

/-! ### Ranks as numbers -/

/-- How tightly the operator at the top of an expression binds, and an operand more tightly than
every operator. -/
def level : Expr → Nat
  | .compare op _ _ => (Operator.comparison op).level
  | .connect op _ _ => (Operator.connective op).level
  | _ => 4

theorem level_apply (op : Operator) (l r : Expr) : (op.apply l r).level = op.level := by
  cases op <;> rfl

theorem isOr_eq_false {e : Expr} (h : 0 < e.level) : e.isOr = false := by
  unfold isOr
  split
  · exact absurd h (Nat.lt_irrefl 0)
  · rfl

theorem isAnd_eq_false {e : Expr} (h : 1 < e.level) : e.isAnd = false := by
  unfold isAnd
  split
  · exact absurd h (Nat.lt_irrefl 1)
  · rfl

theorem isLogical_eq_false {e : Expr} (h : 2 ≤ e.level) : e.isLogical = false := by
  unfold isLogical
  split
  · rename_i op _ _
    cases op <;> simp [level, Operator.level] at h
  · rfl

theorem isEquality_eq_false {e : Expr} (h : 3 ≤ e.level) : e.isEquality = false := by
  unfold isEquality
  split
  · rename_i op _ _
    cases op <;> simp_all [level, Operator.level, Comparison.isEquality]
  · rfl

theorem isComparison_eq_false {e : Expr} (h : 4 ≤ e.level) : e.isComparison = false := by
  unfold isComparison
  split
  · rename_i op _ _
    exact absurd h (Nat.not_le_of_lt (Operator.comparison op).level_lt)
  · rfl

/-- What stands below an operator binds as tightly at least, and more tightly on the right. -/
theorem ranked_apply {op : Operator} {l r : Expr} (hl : op.level ≤ l.level)
    (hr : op.level < r.level) : (op.apply l r).Ranked := by
  cases op with
  | connective op =>
    cases op with
    | or =>
      have hor : r.isOr = false := isOr_eq_false hr
      constructor <;> simp_all [Operator.apply]
    | and =>
      have hl : l.isOr = false := isOr_eq_false hl
      have hr : 1 < r.level := hr
      have hor : r.isOr = false := isOr_eq_false (by omega)
      have hand : r.isAnd = false := isAnd_eq_false hr
      constructor <;> simp_all [Operator.apply]
  | comparison op =>
    have hlevel : (Operator.comparison op).level = if op.isEquality then 2 else 3 := rfl
    have hlogical : l.isLogical = false ∧ r.isLogical = false := by
      constructor <;> refine isLogical_eq_false ?_ <;> split at hlevel <;> omega
    have hequality : r.isEquality = false := by
      refine isEquality_eq_false ?_
      split at hlevel <;> omega
    have horder : op.isEquality = false → l.isEquality = false ∧ r.isComparison = false := by
      intro hop
      rw [hop, if_neg Bool.false_ne_true] at hlevel
      rw [hlevel] at hl hr
      exact ⟨isEquality_eq_false hl, isComparison_eq_false hr⟩
    constructor <;> simp_all [Operator.apply]

theorem ranked_of_level {e : Expr} (h : e.level = 4) : e.Ranked := by
  cases e with
  | compare op l r => exact absurd h (Nat.ne_of_lt (Operator.comparison op).level_lt)
  | connect op l r => exact absurd h (Nat.ne_of_lt (Operator.connective op).level_lt)
  | _ => constructor <;> simp

/-! ### Grouping a chain of operators -/

theorem normal_of_inner {e : Expr} (hself : e.Ranked) (hinner : ∀ f ∈ e.inner, f.Normal) :
    e.Normal := by
  intro p hp
  rcases mem_parts.1 hp with rfl | ⟨f, hf, hp⟩
  · exact hself
  · exact hinner f hf p hp

theorem normal_apply {op : Operator} {l r : Expr} (hl : l.Normal) (hr : r.Normal)
    (hleft : op.level ≤ l.level) (hright : op.level < r.level) : (op.apply l r).Normal := by
  have hinner : (op.apply l r).inner = [l, r] := by cases op <;> rfl
  refine normal_of_inner (ranked_apply hleft hright) ?_
  rw [hinner]
  simp [hl, hr]

end Expr

/-- Grouping one level keeps the ranks where only operands that bind more tightly are joined: the
first of them may be a group of the same level already. -/
theorem reduceLevel_normal {level : Nat} {ops : List (Operator × Expr)}
    (hops : ∀ o ∈ ops, o.2.Normal ∧ level < o.2.level) : ∀ e : Expr, e.Normal → level ≤ e.level →
      ((reduceLevel level e ops).1.Normal ∧ level ≤ (reduceLevel level e ops).1.level) ∧
        ∀ o ∈ (reduceLevel level e ops).2, o.2.Normal ∧ level ≤ o.2.level := by
  induction ops with
  | nil => exact fun e he hlevel => ⟨⟨he, hlevel⟩, List.forall_mem_nil _⟩
  | cons o ops ih =>
    intro e he hlevel
    obtain ⟨op, f⟩ := o
    obtain ⟨⟨hf, hflevel⟩, hops⟩ := List.forall_mem_cons.1 hops
    rw [reduceLevel]
    split
    · rename_i hop
      have happly : (op.apply e f).Normal :=
        Expr.normal_apply he hf (hop ▸ hlevel) (hop ▸ hflevel)
      exact ih hops _ happly (Nat.le_of_eq (by rw [Expr.level_apply, hop]))
    · have hrest := ih hops f hf (Nat.le_of_lt hflevel)
      exact ⟨⟨he, hlevel⟩, List.forall_mem_cons.2 hrest⟩

theorem reduceLevels_normal (levels : Nat) : ∀ chain : Expr × List (Operator × Expr),
    chain.1.Normal ∧ levels ≤ chain.1.level →
    (∀ o ∈ chain.2, o.2.Normal ∧ levels ≤ o.2.level) → (reduceLevels levels chain).1.Normal := by
  induction levels with
  | zero => exact fun _ h _ => h.1
  | succ level ih =>
    rintro ⟨e, ops⟩ ⟨he, hlevel⟩ hops
    obtain ⟨hfirst, hrest⟩ := reduceLevel_normal hops e he (Nat.le_of_succ_le hlevel)
    exact ih _ hfirst hrest

/-- A chain of operands is grouped by rank. -/
theorem assemble_normal {first : Expr} {ops : List (Operator × Expr)}
    (hfirst : first.Normal ∧ first.level = 4) (hops : ∀ o ∈ ops, o.2.Normal ∧ o.2.level = 4) :
    (assemble first ops).Normal :=
  reduceLevels_normal 4 (first, ops) ⟨hfirst.1, Nat.le_of_eq hfirst.2.symm⟩ fun o ho =>
    ⟨(hops o ho).1, Nat.le_of_eq (hops o ho).2.symm⟩

/-! ### Whatever is read -/

namespace Parser

/-- An operand whose parts are ranked. -/
theorem normal_operand {e : Expr} (hlevel : e.level = 4) (hinner : ∀ f ∈ e.inner, f.Normal) :
    e.Normal ∧ e.level = 4 :=
  ⟨Expr.normal_of_inner (Expr.ranked_of_level hlevel) hinner, hlevel⟩

theorem normal_narrowed {primary : Expr} {ps : List Expr} {ss : List (Step Expr)}
    (h : primary.Normal ∧ primary.level = 4) (hps : ∀ p ∈ ps, p.Normal)
    (hss : ∀ s ∈ ss, ∀ p ∈ s.predicates, p.Normal) :
    (narrowed primary ps ss).Normal ∧ (narrowed primary ps ss).level = 4 := by
  unfold narrowed
  split
  · exact h
  · exact normal_operand rfl (Expr.forall_inner_filter h.1 hps hss)

/-- The expressions of a phrase are ranked, and its operands are operands. -/
def Phrase.Normal : Phrase → Prop
  | .operand e => e.Normal ∧ e.level = 4
  | .chain ops => ∀ o ∈ ops, o.2.Normal ∧ o.2.level = 4
  | ph => ph.All Expr.Normal

theorem Derives.normal {functions : Registry} {ph : Phrase} {ts us : List Token}
    (h : Derives functions ph ts us) : ph.Normal := by
  induction h with
  | expression _ _ hfirst hops => exact assemble_normal hfirst hops
  | noOperator => exact List.forall_mem_nil _
  | operator _ _ _ hright hmore => exact List.forall_mem_cons.2 ⟨hright, hmore⟩
  | string => exact normal_operand rfl (List.forall_mem_nil _)
  | number => exact normal_operand rfl (List.forall_mem_nil _)
  | variableName _ _ _ hconditions hmore =>
    exact normal_narrowed (normal_operand rfl (List.forall_mem_nil _)) hconditions hmore
  | call _ _ _ _ _ hinside hconditions hmore =>
    exact normal_narrowed (normal_operand rfl hinside) hconditions hmore
  | prefixedCall _ _ _ _ _ _ hinside hconditions hmore =>
    exact normal_narrowed (normal_operand rfl hinside) hconditions hmore
  | root => exact normal_operand rfl (Expr.forall_inner_path (List.forall_mem_nil _))
  | rootSlash _ _ _ hfirst hmore =>
    exact normal_operand rfl (Expr.forall_inner_path (List.forall_mem_cons.2 ⟨hfirst, hmore⟩))
  | rootDescent _ _ _ hfirst hmore =>
    have hsteps := Phrase.all_anyBelow (List.forall_mem_cons.2 ⟨hfirst, hmore⟩)
    exact normal_operand rfl (Expr.forall_inner_path hsteps)
  | path _ _ hfirst hmore =>
    exact normal_operand rfl (Expr.forall_inner_path (List.forall_mem_cons.2 ⟨hfirst, hmore⟩))
  | noArgument => exact List.forall_mem_nil _
  | argument _ _ _ hfirst hmore => exact List.forall_mem_cons.2 ⟨hfirst, hmore⟩
  | noStep => exact List.forall_mem_nil _
  | slash _ _ _ hfirst hmore => exact List.forall_mem_cons.2 ⟨hfirst, hmore⟩
  | descent _ _ _ hfirst hmore =>
    exact Phrase.all_anyBelow (List.forall_mem_cons.2 ⟨hfirst, hmore⟩)
  | step _ _ hconditions => exact hconditions
  | noPredicate => exact List.forall_mem_nil _
  | predicate _ _ _ _ hfirst hmore => exact List.forall_mem_cons.2 ⟨hfirst, hmore⟩

end Parser

end XPath
