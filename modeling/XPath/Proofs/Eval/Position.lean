import XPath.Proofs.Eval.Ascending
import XPath.Proofs.Eval.Predicates
import XPath.Proofs.Tree.Direction
import XPath.Proofs.Value.Compare

/-!
# Predicates that are numbers

A number as a predicate stands for the test whether the position is that number.  The position of a
candidate is its rank: its place in document order, or along a reverse axis against it, among the
candidates that earlier predicates have left.

* `Tree.precedes`, `Tree.rank`: the direction of an axis, and the rank of a node among others;
* `Tree.Runs`, `Runs.mem_zipIdx`: in a list that runs along an axis the positions are the ranks;
* `exists_candidates`, `runs_of_select`: what a step selects runs along its axis;
* `Expr.isPosition`, `keepWhere_isPosition`: the test that a number stands for;
* `mem_keepWhere_numeric`, `evaluate_number_predicate`: a number among the predicates of a step.
-/

namespace XPath

variable {N : Type}

/-! ### Ranks -/

namespace Tree

/-- Whether the first node comes before the second in the direction of an axis. -/
def precedes (T : Tree N) (axis : Axis) (a b : N) : Bool :=
  if axis.isReverse then T.before b a else T.before a b

/-- The place of a node among others in the direction of an axis, counted from one. -/
def rank (T : Tree N) (axis : Axis) (ns : List N) (n : N) : Nat :=
  ns.countP (fun m => T.precedes axis m n) + 1

/-- In the direction of the axis each node of the list comes before those behind it, and none before
itself or those in front of it. -/
structure Runs (T : Tree N) (axis : Axis) (ns : List N) : Prop where
  /-- Of two nodes the first comes before the second and not after it. -/
  ordered : ns.Pairwise fun a b => T.precedes axis a b ∧ T.precedes axis b a = false
  /-- No node comes before itself. -/
  irreflexive : ∀ n ∈ ns, T.precedes axis n n = false

namespace Runs

variable {T : Tree N} {axis : Axis} {ns ms : List N}

theorem sublist (h : T.Runs axis ms) (hsub : ns.Sublist ms) : T.Runs axis ns :=
  ⟨h.ordered.sublist hsub, fun n hn => h.irreflexive n (hsub.subset hn)⟩

/-- As many nodes come before a node as stand in front of it. -/
theorem countP_precedes (h : T.Runs axis ns) :
    ∀ i (hi : i < ns.length), ns.countP (fun m => T.precedes axis m ns[i]) = i := by
  induction ns with
  | nil => exact fun i hi => absurd hi (Nat.not_lt_zero i)
  | cons n ns ih =>
    intro i hi
    obtain ⟨hfirst, -⟩ := List.pairwise_cons.1 h.ordered
    cases i with
    | zero =>
      have hself : T.precedes axis n n = false := h.irreflexive n List.mem_cons_self
      have hnone : ns.countP (fun m => T.precedes axis m n) = 0 := by
        rw [List.countP_eq_zero]
        intro m hm
        simp [(hfirst m hm).2]
      simp [hself, hnone]
    | succ i =>
      have hi : i < ns.length := Nat.lt_of_succ_lt_succ hi
      have hbefore : T.precedes axis n ns[i] := (hfirst _ (List.getElem_mem hi)).1
      have hbehind := ih (h.sublist (List.sublist_cons_self n ns)) i hi
      rw [List.getElem_cons_succ, List.countP_cons, hbehind, if_pos hbefore]

/-- The position of a node is its rank. -/
theorem mem_zipIdx (h : T.Runs axis ns) {n : N} {i : Nat} :
    (n, i) ∈ ns.zipIdx 1 ↔ n ∈ ns ∧ i = T.rank axis ns n := by
  have hrank : ∀ j (hj : j < ns.length), T.rank axis ns ns[j] = j + 1 :=
    fun j hj => congrArg (· + 1) (h.countP_precedes j hj)
  constructor
  · intro hmem
    obtain ⟨hfirst, hlast, hn⟩ := List.mem_zipIdx hmem
    have hj : i - 1 < ns.length := by omega
    rw [hn, hrank _ hj]
    exact ⟨List.getElem_mem hj, by omega⟩
  · rintro ⟨hn, rfl⟩
    obtain ⟨j, hj, rfl⟩ := List.getElem_of_mem hn
    rw [hrank j hj, List.mk_mem_zipIdx_iff_le_and_getElem?_sub]
    exact ⟨Nat.le_add_left 1 j, List.getElem?_eq_getElem hj⟩

end Runs

variable {T : Tree N} {root n : N} {axis : Axis}

/-- What lies on the walk in the order of the axis runs along it. -/
theorem Lawful.runs_of_sublist [DecidableEq N] (h : T.Lawful root) {ns : List N}
    (hsub : (if axis.isReverse then ns.reverse else ns).Sublist (T.walk root)) :
    T.Runs axis ns := by
  have hordered := h.ordered.sublist hsub
  have hirreflexive : ∀ n ∈ ns, T.before n n = false := by
    intro n hn
    refine h.irreflexive n (h.toLinked.mem_walk.1 (hsub.subset ?_))
    split
    · exact List.mem_reverse.2 hn
    · exact hn
  cases hreverse : axis.isReverse with
  | false =>
    rw [hreverse] at hordered
    exact ⟨hordered.imp fun hab => by simpa [precedes, hreverse] using hab,
      fun n hn => by simpa [precedes, hreverse] using hirreflexive n hn⟩
  | true =>
    rw [hreverse] at hordered
    refine ⟨(List.pairwise_reverse.1 hordered).imp fun hab => ?_, fun n hn => ?_⟩
    · simpa [precedes, hreverse] using hab
    · simpa [precedes, hreverse] using hirreflexive n hn

/-- From every node that can be reached there are nodes along every axis, and they run along it. -/
theorem Lawful.exists_along [DecidableEq N] (h : T.Lawful root) (hn : T.Reaches root n)
    (axis : Axis) (accept : N → Bool) : ∃ ns, T.along accept axis n = .ok ns ∧ T.Runs axis ns := by
  obtain ⟨ns, hns, hsub⟩ := h.toLinked.along_sublist hn axis
  exact ⟨ns.filter accept, hns accept, (h.runs_of_sublist hsub).sublist List.filter_sublist⟩

end Tree

/-! ### Steps -/

section Steps

variable [DecidableEq N] {env : Env N} {root n : N}

/-- A step without predicates selects nodes from every node that can be reached. -/
theorem exists_candidates (h : env.tree.Lawful root) (hn : env.tree.Reaches root n) (axis : Axis)
    (test : NodeTest) : ∃ ns, select env ⟨axis, test, []⟩ n = .ok ns ∧ env.tree.Runs axis ns := by
  obtain ⟨ns, hns, hruns⟩ := h.exists_along hn axis (test.accepts env.tree axis)
  refine ⟨ns, ?_, hruns⟩
  rw [select_step, hns]
  rfl

/-- What a step selects runs along its axis, whatever its predicates. -/
theorem runs_of_select (h : env.tree.Lawful root) (hn : env.tree.Reaches root n) {axis : Axis}
    {test : NodeTest} {ps : List Expr} {ns : List N}
    (hns : select env ⟨axis, test, ps⟩ n = .ok ns) : env.tree.Runs axis ns := by
  obtain ⟨ms, hms, hruns⟩ := exists_candidates h hn axis test
  have happend : select env ⟨axis, test, [] ++ ps⟩ n
      = select env ⟨axis, test, []⟩ n >>= filterAll env ps := select_append axis test [] ps n
  rw [List.nil_append, hms, hns] at happend
  exact hruns.sublist (filterAll_sublist happend.symm)

end Steps

/-! ### Numbers -/

/-- The test whether the position is the value of an expression. -/
def Expr.isPosition (e : Expr) : Expr :=
  .compare .eq (.call "position" []) e

variable [DecidableEq N] {env : Env N} {ns : List N} {e : Expr}

/-- At every place of the list the expression has a number for its value. -/
def Env.Numeric (env : Env N) (e : Expr) (ns : List N) : Prop :=
  ∀ x ∈ ns.zipIdx 1, ∃ v, evaluate env e ⟨x.1, x.2, ns.length⟩ = .ok (.number v)

theorem evaluate_position (hf : env.functions = .standard) (focus : Focus N) :
    evaluate env (.call "position" []) focus = .ok (.number (Float.ofNat focus.position)) := by
  rw [evaluate_call, hf]
  rfl

/-- The test keeps a node exactly if the number does. -/
theorem exists_isPosition (hf : env.functions = .standard) {focus : Focus N} {x : Float}
    (h : evaluate env e focus = .ok (.number x)) :
    ∃ v, evaluate env e.isPosition focus = .ok v ∧
      keeps focus.position v = (x == Float.ofNat focus.position) := by
  refine ⟨.boolean (Float.ofNat focus.position == x), ?_, Number.beq_comm _ _⟩
  rw [Expr.isPosition, evaluate_compare, evaluate_position hf, h]
  rfl

theorem keepWhere_numeric (he : env.Numeric e ns) :
    keepWhere (fun n i => evaluate env e ⟨n, i, ns.length⟩) 1 ns
      = .ok (((ns.zipIdx 1).filter fun x =>
          passes x.2 (evaluate env e ⟨x.1, x.2, ns.length⟩)).map Prod.fst) := by
  refine keepWhere_of_values ns 1 fun x hx => ?_
  obtain ⟨v, hv⟩ := he x hx
  exact ⟨.number v, hv⟩

/-- Among nodes the test keeps what the number keeps. -/
theorem keepWhere_isPosition (hf : env.functions = .standard) (he : env.Numeric e ns) :
    keepWhere (fun n i => evaluate env e.isPosition ⟨n, i, ns.length⟩) 1 ns
      = keepWhere (fun n i => evaluate env e ⟨n, i, ns.length⟩) 1 ns := by
  rw [keepWhere_numeric he]
  refine keepWhere_eq (fun n i => passes i (evaluate env e ⟨n, i, ns.length⟩)) ns 1 fun x hx => ?_
  obtain ⟨v, hv⟩ := he x hx
  rw [hv]
  exact exists_isPosition hf hv

/-- Of nodes that run along an axis a number keeps those that have it for their rank. -/
theorem mem_keepWhere_numeric {axis : Axis} (hns : env.tree.Runs axis ns) (he : env.Numeric e ns) :
    ∃ ks, keepWhere (fun n i => evaluate env e ⟨n, i, ns.length⟩) 1 ns = .ok ks ∧
      ∀ m, m ∈ ks ↔ m ∈ ns ∧ ∃ x,
        evaluate env e ⟨m, env.tree.rank axis ns m, ns.length⟩ = .ok (.number x) ∧
          x == Float.ofNat (env.tree.rank axis ns m) := by
  refine ⟨_, keepWhere_numeric he, fun m => ?_⟩
  rw [List.mem_map]
  simp only [List.mem_filter]
  constructor
  · rintro ⟨⟨n, i⟩, ⟨hx, hpasses⟩, rfl⟩
    obtain ⟨hn, rfl⟩ := hns.mem_zipIdx.1 hx
    obtain ⟨v, hv⟩ := he _ hx
    rw [hv] at hpasses
    exact ⟨hn, v, hv, hpasses⟩
  · rintro ⟨hm, x, hx, hrank⟩
    refine ⟨(m, env.tree.rank axis ns m), ⟨hns.mem_zipIdx.2 ⟨hm, rfl⟩, ?_⟩, rfl⟩
    rw [hx]
    exact hrank

/-! ### Paths of one step -/

/-- A path of one step finds what the step selects from the context node. -/
theorem evaluate_step (s : Step Expr) (focus : Focus N) :
    evaluate env (.path false [s]) focus
      = (select env s focus.node).map fun ns => .nodes (env.tree.inOrder ns) := by
  rw [evaluate_path]
  simp only [Bool.false_eq_true, if_false, evaluateSteps_single]
  cases select env s focus.node <;> rfl

/-- In a tree that keeps to the contract let an expression have a number for its value at every
candidate that a step with some predicates leaves.  Then it makes no difference, whatever predicates
come next, whether the expression or the test for this position follows them, and either leaves just
those candidates whose rank along the axis is the number. -/
theorem evaluate_number_predicate {root : N} (h : env.tree.Lawful root)
    (hf : env.functions = .standard) (focus : Focus N) (hn : env.tree.Reaches root focus.node)
    (axis : Axis) (test : NodeTest) (ps : List Expr)
    (he : ∀ ns, select env ⟨axis, test, ps⟩ focus.node = .ok ns → env.Numeric e ns) :
    (∃ ns, select env ⟨axis, test, []⟩ focus.node = .ok ns) ∧
    (∀ qs, evaluate env (.path false [⟨axis, test, ps ++ e :: qs⟩]) focus
      = evaluate env (.path false [⟨axis, test, ps ++ e.isPosition :: qs⟩]) focus) ∧
    ∀ ns, select env ⟨axis, test, ps⟩ focus.node = .ok ns → ∃ ks,
      evaluate env (.path false [⟨axis, test, ps ++ [e]⟩]) focus = .ok (.nodes ks) ∧
      evaluate env (.path false [⟨axis, test, ps ++ [e.isPosition]⟩]) focus = .ok (.nodes ks) ∧
      ∀ m, m ∈ ks ↔ m ∈ ns ∧ ∃ x,
        evaluate env e ⟨m, env.tree.rank axis ns m, ns.length⟩ = .ok (.number x) ∧
          x == Float.ofNat (env.tree.rank axis ns m) := by
  -- both predicates keep the same candidates, so what comes next sees the same list
  have hsame : ∀ qs, evaluate env (.path false [⟨axis, test, ps ++ e :: qs⟩]) focus
      = evaluate env (.path false [⟨axis, test, ps ++ e.isPosition :: qs⟩]) focus := by
    intro qs
    rw [evaluate_step, evaluate_step, select_append, select_append]
    cases hns : select env ⟨axis, test, ps⟩ focus.node with
    | error _ => rfl
    | ok ns =>
      refine congrArg (Except.map _) ?_
      show filterAll env (e :: qs) ns = filterAll env (e.isPosition :: qs) ns
      rw [filterAll_cons, filterAll_cons, keepWhere_isPosition hf (he ns hns)]
  obtain ⟨candidates, hcandidates, -⟩ := exists_candidates h hn axis test
  refine ⟨⟨candidates, hcandidates⟩, hsame, fun ns hns => ?_⟩
  obtain ⟨kept, hkept, hmem⟩ := mem_keepWhere_numeric (runs_of_select h hn hns) (he ns hns)
  have hpath : evaluate env (.path false [⟨axis, test, ps ++ [e]⟩]) focus
      = .ok (.nodes (env.tree.inOrder kept)) := by
    rw [evaluate_step, select_append, hns]
    show (filterAll env [e] ns).map _ = _
    rw [filterAll_cons, hkept]
    rfl
  refine ⟨env.tree.inOrder kept, hpath, (hsame []).symm.trans hpath, fun m => ?_⟩
  rw [Tree.mem_inOrder, hmem]

/-- Of the two elements before the second paragraph of the sample the last one along the axis is the
first paragraph. -/
theorem evaluate_number_predicate_last :
    Env.sample.tree.Lawful 0 ∧ Env.sample.functions = .standard ∧ Env.sample.tree.Reaches 0 11 ∧
    select .sample ⟨.precedingSibling, .any, []⟩ 11 = .ok [7, 1] ∧
    Env.sample.Numeric (.call "last" []) [7, 1] ∧
    ∃ ks, evaluate .sample (.path false [⟨.precedingSibling, .any, [.call "last" []]⟩]) ⟨11, 1, 1⟩
        = .ok (.nodes ks) ∧
      evaluate .sample
        (.path false [⟨.precedingSibling, .any, [Expr.isPosition (.call "last" [])]⟩]) ⟨11, 1, 1⟩
        = .ok (.nodes ks) ∧ 1 ∈ ks ∧ 7 ∉ ks := by
  have hreaches : Env.sample.tree.Reaches 0 11 := .child .root (by decide)
  have hcandidates : select Env.sample ⟨.precedingSibling, .any, []⟩ 11 = .ok [7, 1] := by
    decide +kernel
  have hnumeric : Env.sample.Numeric (.call "last" []) [7, 1] :=
    fun _ _ => ⟨Float.ofNat 2, rfl⟩
  have hcalls : ∀ ns, select Env.sample ⟨.precedingSibling, .any, []⟩ 11 = .ok ns →
      Env.sample.Numeric (.call "last" []) ns := by
    intro ns hns
    rw [hcandidates, Except.ok.injEq] at hns
    exact hns ▸ hnumeric
  obtain ⟨-, -, hpaths⟩ := evaluate_number_predicate Tree.lawful_sample rfl ⟨11, 1, 1⟩ hreaches
    .precedingSibling .any [] hcalls
  obtain ⟨ks, hlast, hposition, hmem⟩ := hpaths [7, 1] hcandidates
  refine ⟨Tree.lawful_sample, rfl, hreaches, hcandidates, hnumeric, ks, hlast, hposition, ?_, ?_⟩
  · exact (hmem 1).2 ⟨by decide, Float.ofNat 2, rfl, by decide +kernel⟩
  · intro h7
    obtain ⟨-, x, hx, hrank⟩ := (hmem 7).1 h7
    cases hx
    revert hrank
    decide +kernel

end XPath
