import XPath.Proofs.Calls
import XPath.Proofs.Eval.Composition
import XPath.Proofs.Eval.Contained

/-!
# Node-sets are found in document order

A path merges what it found after each step, a filtered expression brings its nodes into document
order before the first predicate, and a predicate only leaves nodes out.  No function has a node-set
for its value.  So an expression yields an ascending list, unless it is a variable, which yields the
list that it is bound to.

* `filterAll_sublist`: predicates leave nodes out;
* `ascending_of_evaluateSteps`: steps lead from an ascending list to an ascending list;
* `Builtin.apply_isScalar`: what functions yield;
* `ascending_path`, `ascending_filter`, `not_nodes_of_call`: the forms of an expression;
* `evaluate_ascending`: expressions.
-/

namespace XPath

variable {N : Type}

/-! ### Functions -/

/-- No function has a node-set for its value, however many arguments it is given. -/
theorem Builtin.apply_isScalar (f : Builtin) (T : Tree N) (args : List (Value N))
    (focus : Focus N) : Ends (fun _ => True) Value.IsScalar (f.apply T args focus) := by
  cases f with
  | lang => exact Ends.always.bind fun range _ => trivial
  | sum => exact Ends.always.bind fun ns _ => trivial
  | count => exact Ends.always.bind fun ns _ => trivial
  | localName => exact Ends.always.bind fun q _ => trivial
  | name => exact Ends.always.bind fun q _ => trivial
  | contains => exact Ends.always.bind fun needle _ => Ends.always.bind fun s _ => trivial
  | startsWith => exact Ends.always.bind fun start _ => Ends.always.bind fun s _ => trivial
  | _ => trivial

theorem callFunction_isScalar {T : Tree N} {functions : Registry} {name : String}
    {args : List (Value N)} {focus : Focus N} {v : Value N}
    (h : callFunction T functions name args focus = .ok v) : v.IsScalar := by
  unfold callFunction at h
  split at h
  · cases h
  · split at h
    · rename_i f _
      have hscalar := f.apply_isScalar T args focus
      rw [h] at hscalar
      exact hscalar
    · cases h

variable [DecidableEq N] {env : Env N} {focus : Focus N} {ns ms : List N}

/-! ### Predicates and steps -/

/-- Predicates leave nodes out and keep the order of the others. -/
theorem filterAll_sublist {ps : List Expr} (h : filterAll env ps ns = .ok ms) : ms.Sublist ns := by
  have hends := filterAll_ends env (E := fun _ => True) (S := fun _ => True) ps
    (fun p _ focus _ => Ends.always) ns fun _ _ => trivial
  rw [h] at hends
  exact hends

theorem ascending_of_evaluateSteps (hT : env.tree.Ordered) {ss : List (Step Expr)}
    (hns : env.tree.Ascending ns) (h : evaluateSteps env ss ns = .ok ms) :
    env.tree.Ascending ms := by
  by_cases hss : ss = []
  · subst hss
    rw [evaluateSteps_nil] at h
    cases h
    exact hns
  · exact ascending_evaluateSteps hT hss h

/-! ### The forms of an expression -/

theorem not_nodes_of_call {name : String} {args : List Expr} :
    evaluate env (.call name args) focus ≠ .ok (.nodes ns) := by
  intro h
  rw [evaluate_call] at h
  obtain ⟨vs, -, hcall⟩ := bind_eq_ok.1 h
  exact callFunction_isScalar hcall

theorem ascending_path (hT : env.tree.Ordered) {absolute : Bool} {ss : List (Step Expr)}
    (h : evaluate env (.path absolute ss) focus = .ok (.nodes ns)) : env.tree.Ascending ns := by
  rw [evaluate_path] at h
  obtain ⟨ms, hms, heq⟩ := bind_eq_ok.1 h
  cases heq
  -- a path without steps yields the node that it starts from
  exact ascending_of_evaluateSteps hT (List.pairwise_singleton _ _) hms

theorem ascending_filter (hT : env.tree.Ordered) {primary : Expr} {ps : List Expr}
    {ss : List (Step Expr)} (h : evaluate env (.filter primary ps ss) focus = .ok (.nodes ns)) :
    env.tree.Ascending ns := by
  rw [evaluate_filter] at h
  obtain ⟨v, -, h⟩ := bind_eq_ok.1 h
  obtain ⟨found, -, h⟩ := bind_eq_ok.1 h
  obtain ⟨kept, hkept, h⟩ := bind_eq_ok.1 h
  obtain ⟨ms, hms, heq⟩ := bind_eq_ok.1 h
  cases heq
  have hordered : env.tree.Ascending (env.tree.inOrder found) := hT.ascending_inOrder found
  exact ascending_of_evaluateSteps hT (hordered.sublist (filterAll_sublist hkept)) hms

/-- A node-set that an expression yields, other than a variable, is in document order and has each
node once, whatever the variables hold. -/
theorem evaluate_ascending (hT : env.tree.Ordered) {e : Expr} (he : ∀ name, e ≠ .variable name)
    (h : evaluate env e focus = .ok (.nodes ns)) : env.tree.Ascending ns := by
  cases e with
  | literal s => cases h
  | number x => cases h
  | «variable» name => exact absurd rfl (he name)
  | call name args => exact absurd h not_nodes_of_call
  | path absolute ss => exact ascending_path hT h
  | filter primary ps ss => exact ascending_filter hT h
  | compare op left right =>
    rw [evaluate_compare] at h
    obtain ⟨l, -, h⟩ := bind_eq_ok.1 h
    obtain ⟨r, -, h⟩ := bind_eq_ok.1 h
    cases h
  | connect op left right =>
    rw [evaluate_connect] at h
    obtain ⟨l, -, h⟩ := bind_eq_ok.1 h
    split at h
    · cases h
    · obtain ⟨r, -, h⟩ := bind_eq_ok.1 h
      cases h

/-- The elements among the nodes of a variable, `$kept[self::*]`, where it holds them against
document order and one of them twice. -/
theorem evaluate_ascending_kept : ∃ env : Env Nat, ∃ e : Expr,
    env = { Env.sample with bindings := Bindings.empty.set "kept" (.nodes [11, 5, 1, 11]) } ∧
    e = .filter (.variable "kept") [.path false [⟨.self, .any, []⟩]] [] ∧
    evaluate env e ⟨0, 1, 1⟩ = .ok (.nodes [1, 11]) ∧ env.tree.Ascending [1, 11] := by
  refine ⟨_, _, rfl, rfl, ?_⟩
  have hT : Env.sample.tree.Ordered := Tree.ordered_table Table.sample
  have hmem : ∀ n : Nat, n ∈ [11, 5, 1, 11] ↔ n ∈ [1, 5, 11] := by
    intro n
    simp only [List.mem_cons, List.not_mem_nil, or_false]
    omega
  have hordered : Env.sample.tree.inOrder [11, 5, 1, 11] = [1, 5, 11] := by
    rw [hT.inOrder_congr hmem, hT.inOrder_eq_self (by decide)]
  have hkept : filterAll
      { Env.sample with bindings := Bindings.empty.set "kept" (.nodes [11, 5, 1, 11]) }
      [.path false [⟨.self, .any, []⟩]] [1, 5, 11] = .ok [1, 11] := by decide +kernel
  have hvalue : evaluate
      { Env.sample with bindings := Bindings.empty.set "kept" (.nodes [11, 5, 1, 11]) }
      (.filter (.variable "kept") [.path false [⟨.self, .any, []⟩]] []) ⟨0, 1, 1⟩
      = .ok (.nodes [1, 11]) := by
    rw [evaluate_filter]
    show (do
      let kept ← filterAll _ _ (Env.sample.tree.inOrder [11, 5, 1, 11])
      let ms ← evaluateSteps _ [] kept
      return Value.nodes ms) = _
    rw [hordered, hkept]
    rfl
  exact ⟨hvalue, evaluate_ascending hT (by simp) hvalue⟩

end XPath
