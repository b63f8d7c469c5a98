import XPath.Proofs.Eval.Predicates
import XPath.Proofs.Tree.Linked
import XPath.Proofs.Tree.Merging

/-!
# Two slashes and the descendants

Two slashes in front of a step stand for a step to the context node and everything below it, so that
the step behind them is taken from each of these nodes to its children.  All together these are the
descendants.  The predicates see other candidates at other places then, which makes no difference to
those that take no account of places.

* `mem_below_iff_mem_children`: the descendants are the children of the node and of what is below
  it;
* `NodeTest.accepts_descendant`: children and descendants are tested in the same way;
* `Env.chosen`, `select_chosen`: what the steps choose;
* `evaluate_descent`: the two paths.
-/

namespace XPath

variable {N : Type}

/-! ### Children of the subtree -/

/-- What is below a node is a child of it or of something below it. -/
theorem Tree.mem_below_iff_mem_children {T : Tree N} {n k : N} :
    k ∈ T.below n ↔ ∃ m ∈ T.subtree n, k ∈ T.children m := by
  constructor
  · intro hk
    induction hn : T.height n using Nat.strongRecOn generalizing n with
    | ind height ih =>
      obtain ⟨c, hc, rfl | hk⟩ := T.mem_below_iff.1 hk
      · exact ⟨n, List.mem_cons_self, hc⟩
      · have hlt : T.height c < height := hn ▸ T.height_lt hc
        obtain ⟨m, hm, hchild⟩ := ih _ hlt hk rfl
        have hbelow : m ∈ T.below n := T.mem_below_iff.2 ⟨c, hc, List.mem_cons.1 hm⟩
        exact ⟨m, List.mem_cons_of_mem n hbelow, hchild⟩
  · rintro ⟨m, hm, hk⟩
    exact T.mem_below_of_child (List.mem_cons.1 hm) hk

/-- Children and descendants are nodes of the same principal kind. -/
theorem NodeTest.accepts_descendant (test : NodeTest) (T : Tree N) :
    test.accepts T .descendant = test.accepts T .child := by
  cases test <;> rfl

variable [DecidableEq N] {env : Env N} {ps : List Expr} {ns : List N} {n : N}

/-! ### Steps -/

/-- Whether a step to children or descendants chooses a node, with predicates that take no account
of places. -/
def Env.chosen (env : Env N) (test : NodeTest) (ps : List Expr) (n : N) : Bool :=
  test.accepts env.tree .child n && ps.all fun p => env.holds p n

/-- Of the nodes along an axis a step selects those that it chooses. -/
theorem select_chosen {axis : Axis} {test : NodeTest}
    (haccept : test.accepts env.tree axis = test.accepts env.tree .child)
    (hns : ∀ accept, env.tree.along accept axis n = .ok (ns.filter accept))
    (hps : ∀ p ∈ ps, ∀ m ∈ ns, env.Steady p m) :
    select env ⟨axis, test, ps⟩ n = .ok (ns.filter (env.chosen test ps)) := by
  have hsteady : ∀ p ∈ ps, ∀ m ∈ ns.filter (test.accepts env.tree .child), env.Steady p m :=
    fun p hp m hm => hps p hp m (List.mem_filter.1 hm).1
  rw [select_step, haccept, hns]
  show filterAll env ps (ns.filter (test.accepts env.tree .child)) = _
  rw [filterAll_steady ps _ hsteady, List.filter_filter]
  simp only [Bool.and_comm]
  rfl

theorem select_anyBelow : select env .anyBelow n = .ok (env.tree.subtree n) := by
  rw [Step.anyBelow, select_step, Tree.along_descendantOrSelf]
  show Except.ok ((env.tree.subtree n).filter fun _ => true) = _
  rw [Tree.filter_always]

/-- Behind two slashes steps are taken from the node and everything below it. -/
theorem evaluateSteps_anyBelow (ss : List (Step Expr)) :
    evaluateSteps env (.anyBelow :: ss) [n]
      = evaluateSteps env ss (env.tree.inOrder (env.tree.subtree n)) := by
  have happend : evaluateSteps env ([.anyBelow] ++ ss) [n]
      = evaluateSteps env [.anyBelow] [n] >>= evaluateSteps env ss := evaluateSteps_append _ _ _
  rw [evaluateSteps_single, select_anyBelow] at happend
  exact happend

/-- A step to children from a node and everything below it finds the descendants that it chooses. -/
theorem exists_children (test : NodeTest) (hps : ∀ p ∈ ps, ∀ m ∈ env.tree.below n, env.Steady p m) :
    ∃ found, ((env.tree.inOrder (env.tree.subtree n)).mapM fun m =>
        select env ⟨.child, test, ps⟩ m) = .ok found ∧
      ∀ k, k ∈ found.flatten ↔ k ∈ (env.tree.below n).filter (env.chosen test ps) := by
  have hchild : ∀ m ∈ env.tree.inOrder (env.tree.subtree n),
      select env ⟨.child, test, ps⟩ m
        = .ok ((env.tree.children m).filter (env.chosen test ps)) := by
    intro m hm
    refine select_chosen rfl (fun accept => Tree.along_child accept m) fun p hp k hk => ?_
    exact hps p hp k (Tree.mem_below_iff_mem_children.2 ⟨m, Tree.mem_inOrder.1 hm, hk⟩)
  obtain ⟨found, hfound⟩ := exists_mapM_eq_ok.2 fun m hm => ⟨_, hchild m hm⟩
  refine ⟨found, hfound, fun k => ?_⟩
  rw [List.mem_filter, Tree.mem_below_iff_mem_children, ← env.tree.mem_inOrder,
    mem_found_iff hfound]
  constructor
  · rintro ⟨m, hm, ks, hks, hk⟩
    rw [hchild m hm] at hks
    cases hks
    obtain ⟨hk, hchosen⟩ := List.mem_filter.1 hk
    exact ⟨⟨m, Tree.mem_inOrder.1 hm, hk⟩, hchosen⟩
  · rintro ⟨⟨m, hm, hk⟩, hchosen⟩
    have hm := (env.tree.mem_inOrder).2 hm
    exact ⟨m, hm, _, hchild m hm, List.mem_filter.2 ⟨hk, hchosen⟩⟩

/-! ### Two slashes -/

/-- Let the predicates of a step take no account of places at the nodes below the start of a path,
and have no numbers for their values.  Behind two slashes the step then finds what it finds along
the descendant axis. -/
theorem evaluate_descent {root : N} (h : env.tree.Lawful root) (absolute : Bool) (focus : Focus N)
    (hstart : env.tree.Reaches root (if absolute then env.root else focus.node)) (test : NodeTest)
    (hps : ∀ p ∈ ps, ∀ m ∈ env.tree.below (if absolute then env.root else focus.node),
      env.Steady p m) :
    ∃ ks, evaluate env (.path absolute [.anyBelow, ⟨.child, test, ps⟩]) focus = .ok (.nodes ks) ∧
      evaluate env (.path absolute [⟨.descendant, test, ps⟩]) focus = .ok (.nodes ks) := by
  rw [evaluate_path, evaluate_path]
  generalize (if absolute then env.root else focus.node) = n at hstart hps ⊢
  obtain ⟨found, hfound, hmem⟩ := exists_children test hps
  have hslashes : evaluateSteps env [.anyBelow, ⟨.child, test, ps⟩] [n]
      = .ok (env.tree.inOrder found.flatten) := by
    rw [evaluateSteps_anyBelow]
    exact evaluateSteps_cons_eq_ok.2 ⟨found, hfound, evaluateSteps_nil _ _⟩
  have hdescendant : evaluateSteps env [⟨.descendant, test, ps⟩] [n]
      = .ok (env.tree.inOrder ((env.tree.below n).filter (env.chosen test ps))) := by
    have hselect := select_chosen (test.accepts_descendant env.tree)
      (fun accept => Tree.along_descendant accept n) hps
    rw [evaluateSteps_single, hselect]
    rfl
  have hreaches : ∀ k ∈ found.flatten, env.tree.Reaches root k := fun k hk =>
    Tree.reaches_of_mem_below hstart (List.mem_filter.1 ((hmem k).1 hk)).1
  refine ⟨env.tree.inOrder found.flatten, ?_, ?_⟩
  · rw [hslashes]
    rfl
  · rw [hdescendant, ← h.inOrder_congr hreaches hmem]
    rfl

/-- The paragraphs of the sample, `//*[name() = 'para']` from the text of the first one. -/
theorem evaluate_descent_sample : ∃ p : Expr,
    p = .compare .eq (.call "name" []) (.literal "para") ∧
    Env.sample.tree.Lawful 0 ∧ Env.sample.tree.Reaches 0 Env.sample.root ∧
    (∀ m ∈ Env.sample.tree.below Env.sample.root, Env.sample.Steady p m) ∧
    evaluate .sample (.path true [.anyBelow, ⟨.child, .any, [p]⟩]) ⟨5, 1, 1⟩
      = evaluate .sample (.path true [⟨.descendant, .any, [p]⟩]) ⟨5, 1, 1⟩ := by
  have hsteady : ∀ m, Env.sample.Steady (.compare .eq (.call "name" []) (.literal "para")) m :=
    fun m => ⟨.boolean (Comparison.eq.values Env.sample.tree
      (.string ((Env.sample.tree.name m).elim "" QName.toText)) (.string "para")),
      fun _ => nofun, fun _ _ => rfl⟩
  refine ⟨_, rfl, Tree.lawful_sample, .root, fun m _ => hsteady m, ?_⟩
  obtain ⟨ks, hslashes, hdescendant⟩ :=
    evaluate_descent Tree.lawful_sample true ⟨5, 1, 1⟩ .root .any
    fun p hp m _ => by
      rw [List.mem_singleton.1 hp]
      exact hsteady m
  exact hslashes.trans hdescendant.symm

end XPath
