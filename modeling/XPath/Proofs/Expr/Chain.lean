import XPath.Expr.Chain

/-!
# Grouping chains of operators

What is known of a chain of operands and operators is known of the expression that they are grouped
to, if an operator preserves it.

* `assemble_of_apply`: a property of expressions;
* `reduceLevels_snd`: grouping all levels leaves no operator;
* `assemble_of_append`: what is read off an expression from left to right.
-/

namespace XPath

/-! ### What an operator preserves -/

section Preserved

variable {P : Expr → Prop} (happly : ∀ op l r, P l → P r → P (Operator.apply op l r))

include happly

theorem reduceLevel_of_apply (level : Nat) {ops : List (Operator × Expr)}
    (hops : ∀ o ∈ ops, P o.2) : ∀ e, P e →
      P (reduceLevel level e ops).1 ∧ ∀ o ∈ (reduceLevel level e ops).2, P o.2 := by
  induction ops with
  | nil =>
    intro e he
    exact ⟨he, by simp [reduceLevel]⟩
  | cons o ops ih =>
    intro e he
    obtain ⟨op, f⟩ := o
    have hf : P f := hops (op, f) List.mem_cons_self
    have hrest := ih fun o ho => hops o (List.mem_cons_of_mem _ ho)
    rw [reduceLevel]
    split
    · exact hrest _ (happly op e f he hf)
    · refine ⟨he, ?_⟩
      intro o ho
      rcases List.mem_cons.1 ho with rfl | ho
      · exact (hrest f hf).1
      · exact (hrest f hf).2 o ho

theorem reduceLevels_of_apply (levels : Nat) : ∀ chain : Expr × List (Operator × Expr),
    P chain.1 → (∀ o ∈ chain.2, P o.2) → P (reduceLevels levels chain).1 := by
  induction levels with
  | zero => exact fun _ h _ => h
  | succ levels ih =>
    intro chain h hops
    have hlevel := reduceLevel_of_apply happly levels hops chain.1 h
    exact ih _ hlevel.1 hlevel.2

/-- What an operator preserves, grouping a chain of operators preserves. -/
theorem assemble_of_apply {first : Expr} {ops : List (Operator × Expr)} (hfirst : P first)
    (hops : ∀ o ∈ ops, P o.2) : P (assemble first ops) :=
  reduceLevels_of_apply happly 4 (first, ops) hfirst hops

end Preserved

/-! ### What is left of a chain -/

/-- Grouping one level leaves operators of other levels only. -/
theorem level_of_mem_reduceLevel {level : Nat} {ops : List (Operator × Expr)} :
    ∀ (e : Expr), ∀ p ∈ (reduceLevel level e ops).2, p.1.level ≠ level ∧ ∃ q ∈ ops, q.1 = p.1 := by
  induction ops with
  | nil =>
    intro e p hp
    simp [reduceLevel] at hp
  | cons q ops ih =>
    intro e p hp
    obtain ⟨op, f⟩ := q
    rw [reduceLevel] at hp
    split at hp
    · obtain ⟨hne, q, hq, hqp⟩ := ih _ p hp
      exact ⟨hne, q, List.mem_cons_of_mem _ hq, hqp⟩
    · rename_i hop
      rcases List.mem_cons.1 hp with rfl | hp
      · exact ⟨hop, _, List.mem_cons_self, rfl⟩
      · obtain ⟨hne, q, hq, hqp⟩ := ih _ p hp
        exact ⟨hne, q, List.mem_cons_of_mem _ hq, hqp⟩

/-- Grouping all levels leaves no operator. -/
theorem reduceLevels_snd (levels : Nat) : ∀ (e : Expr) (ops : List (Operator × Expr)),
    (∀ p ∈ ops, p.1.level < levels) → (reduceLevels levels (e, ops)).2 = [] := by
  induction levels with
  | zero =>
    intro e ops h
    refine List.eq_nil_iff_forall_not_mem.2 fun p hp => ?_
    exact Nat.not_lt_zero _ (h p hp)
  | succ levels ih =>
    intro e ops h
    rw [reduceLevels]
    refine ih _ _ fun p hp => ?_
    obtain ⟨hne, q, hq, hqp⟩ := level_of_mem_reduceLevel e p hp
    have hlt := h q hq
    rw [hqp] at hlt
    omega

theorem Operator.level_lt (op : Operator) : op.level < 4 := by
  rcases op with op | op <;> cases op <;> decide

/-! ### What is read from left to right -/

section Append

variable {α : Type} {f : Expr → List α} (g : Operator → List α)
  (happly : ∀ op l r, f (Operator.apply op l r) = f l ++ (g op ++ f r))

include happly

theorem reduceLevel_of_append (level : Nat) (ops : List (Operator × Expr)) :
    ∀ e, f (reduceLevel level e ops).1 ++
        (reduceLevel level e ops).2.flatMap (fun o => g o.1 ++ f o.2)
      = f e ++ ops.flatMap fun o => g o.1 ++ f o.2 := by
  induction ops with
  | nil => intro e; rfl
  | cons o ops ih =>
    intro e
    obtain ⟨op, r⟩ := o
    rw [reduceLevel]
    split
    · rw [ih, happly, List.flatMap_cons]
      simp only [List.append_assoc]
    · simp only [List.flatMap_cons, List.append_assoc]
      rw [ih r]

theorem reduceLevels_of_append (levels : Nat) : ∀ chain : Expr × List (Operator × Expr),
    f (reduceLevels levels chain).1 ++
        (reduceLevels levels chain).2.flatMap (fun o => g o.1 ++ f o.2)
      = f chain.1 ++ chain.2.flatMap fun o => g o.1 ++ f o.2 := by
  induction levels with
  | zero => intro chain; rfl
  | succ levels ih =>
    intro chain
    rw [reduceLevels, ih, reduceLevel_of_append g happly]

/-- What an operator has between what its operands have, a chain has in the same order before and
after it is grouped. -/
theorem assemble_of_append (first : Expr) (ops : List (Operator × Expr)) :
    f (assemble first ops) = f first ++ ops.flatMap fun o => g o.1 ++ f o.2 := by
  have hnil : (reduceLevels 4 (first, ops)).2 = [] :=
    reduceLevels_snd 4 first ops fun o _ => o.1.level_lt
  have hchain := reduceLevels_of_append g happly 4 (first, ops)
  rw [hnil, List.flatMap_nil, List.append_nil] at hchain
  exact hchain

end Append

end XPath
