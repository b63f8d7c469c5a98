import XPath.Eval
import XPath.Proofs.Outcome
import XPath.Proofs.Tree.Order

/-!
# Paths in two parts

The nodes found by a step are merged before the next step is taken from each of them.  Yet each node
is followed on its own, for the positions in a predicate count what was selected from one node, so
that what a path finds from several nodes is what it finds from each of them.

* `Env.Follows`, `Env.Leads`: what becomes of a single node, with no merging;
* `exists_evaluateSteps_iff`, `mem_evaluateSteps_iff`: merging changes nothing about it;
* `ascending_evaluateSteps`: it brings what was found into document order;
* `evaluateSteps_append`: a path is taken part by part;
* `Env.Unites`, `evaluateSteps_compose`: the second part from every node that the first finds.
-/

namespace XPath

variable {N : Type} [DecidableEq N] (env : Env N)

/-! ### A single node -/

/-- Every step selects nodes, wherever the steps before it lead from the node. -/
def Env.Follows : List (Step Expr) → N → Prop
  | [], _ => True
  | s :: ss, n => ∃ ms, select env s n = .ok ms ∧ ∀ m ∈ ms, Env.Follows ss m

/-- The steps lead from the first node to the second, each selecting the next one on the way. -/
def Env.Leads : List (Step Expr) → N → N → Prop
  | [], n, k => k = n
  | s :: ss, n, k => ∃ ms, select env s n = .ok ms ∧ ∃ m ∈ ms, Env.Leads ss m k

/-! ### Several nodes -/

variable {env} {ss : List (Step Expr)} {ns : List N}

theorem evaluateSteps_cons_eq_ok {s : Step Expr} {ks : List N} :
    evaluateSteps env (s :: ss) ns = .ok ks ↔
      ∃ found, (ns.mapM fun n => select env s n) = .ok found ∧
        evaluateSteps env ss (env.tree.inOrder found.flatten) = .ok ks := by
  rw [evaluateSteps_cons, bind_eq_ok]

/-- What a step finds from several nodes is what it selects from each of them. -/
theorem mem_found_iff {s : Step Expr} {found : List (List N)}
    (h : (ns.mapM fun n => select env s n) = .ok found) (m : N) :
    m ∈ env.tree.inOrder found.flatten ↔ ∃ n ∈ ns, ∃ ms, select env s n = .ok ms ∧ m ∈ ms := by
  rw [Tree.mem_inOrder, List.mem_flatten]
  constructor
  · rintro ⟨ms, hms, hm⟩
    obtain ⟨n, hn, hselect⟩ := (mem_of_mapM_eq_ok h ms).1 hms
    exact ⟨n, hn, ms, hselect, hm⟩
  · rintro ⟨n, hn, ms, hselect, hm⟩
    exact ⟨ms, (mem_of_mapM_eq_ok h ms).2 ⟨n, hn, hselect⟩, hm⟩

/-- Steps can be taken from several nodes exactly if they can be taken from each of them. -/
theorem exists_evaluateSteps_iff :
    (∃ ks, evaluateSteps env ss ns = .ok ks) ↔ ∀ n ∈ ns, env.Follows ss n := by
  induction ss generalizing ns with
  | nil => simp [Env.Follows]
  | cons s ss ih =>
    constructor
    · rintro ⟨ks, h⟩ n hn
      obtain ⟨found, hfound, hrest⟩ := evaluateSteps_cons_eq_ok.1 h
      have hall := ih.1 ⟨ks, hrest⟩
      obtain ⟨ms, hms⟩ := exists_mapM_eq_ok.1 ⟨found, hfound⟩ n hn
      exact ⟨ms, hms, fun m hm => hall m ((mem_found_iff hfound m).2 ⟨n, hn, ms, hms, hm⟩)⟩
    · intro h
      obtain ⟨found, hfound⟩ := exists_mapM_eq_ok.2 fun n hn => (h n hn).imp fun _ hms => hms.1
      have hall : ∀ m ∈ env.tree.inOrder found.flatten, env.Follows ss m := by
        intro m hm
        obtain ⟨n, hn, ms, hms, hm⟩ := (mem_found_iff hfound m).1 hm
        obtain ⟨ms', hms', hfollows⟩ := h n hn
        cases hms.symm.trans hms'
        exact hfollows m hm
      obtain ⟨ks, hks⟩ := ih.2 hall
      exact ⟨ks, evaluateSteps_cons_eq_ok.2 ⟨found, hfound, hks⟩⟩

/-- What steps find from several nodes is what they find from each of them. -/
theorem mem_evaluateSteps_iff {ks : List N} (h : evaluateSteps env ss ns = .ok ks) (k : N) :
    k ∈ ks ↔ ∃ n ∈ ns, env.Leads ss n k := by
  induction ss generalizing ns with
  | nil =>
    rw [evaluateSteps_nil] at h
    cases h
    simp [Env.Leads]
  | cons s ss ih =>
    obtain ⟨found, hfound, hrest⟩ := evaluateSteps_cons_eq_ok.1 h
    rw [ih hrest]
    constructor
    · rintro ⟨m, hm, hleads⟩
      obtain ⟨n, hn, ms, hms, hm⟩ := (mem_found_iff hfound m).1 hm
      exact ⟨n, hn, ms, hms, m, hm, hleads⟩
    · rintro ⟨n, hn, ms, hms, m, hm, hleads⟩
      exact ⟨m, (mem_found_iff hfound m).2 ⟨n, hn, ms, hms, hm⟩, hleads⟩

/-- After any step there is one list only for what was found. -/
theorem ascending_evaluateSteps (hT : env.tree.Ordered) (hss : ss ≠ []) {ks : List N}
    (h : evaluateSteps env ss ns = .ok ks) : env.tree.Ascending ks := by
  induction ss generalizing ns with
  | nil => exact absurd rfl hss
  | cons s ss ih =>
    obtain ⟨found, -, hrest⟩ := evaluateSteps_cons_eq_ok.1 h
    by_cases hlast : ss = []
    · subst hlast
      rw [evaluateSteps_nil] at hrest
      cases hrest
      exact hT.ascending_inOrder _
    · exact ih hlast hrest

/-! ### Two parts -/

/-- The second part is taken from what the first part finds. -/
theorem evaluateSteps_append (first second : List (Step Expr)) (ns : List N) :
    evaluateSteps env (first ++ second) ns
      = evaluateSteps env first ns >>= evaluateSteps env second := by
  induction first generalizing ns with
  | nil =>
    rw [List.nil_append, evaluateSteps_nil]
    rfl
  | cons s first ih =>
    rw [List.cons_append, evaluateSteps_cons, evaluateSteps_cons, bind_assoc]
    simp only [ih]

theorem evaluateSteps_append_eq_ok {first second : List (Step Expr)} {ks : List N} :
    evaluateSteps env (first ++ second) ns = .ok ks ↔
      ∃ ms, evaluateSteps env first ns = .ok ms ∧ evaluateSteps env second ms = .ok ks := by
  rw [evaluateSteps_append, bind_eq_ok]

/-- A path from the context node finds what its steps find there. -/
theorem evaluate_path_eq_ok {focus : Focus N} {v : Value N} :
    evaluate env (.path false ss) focus = .ok v ↔
      ∃ ks, evaluateSteps env ss [focus.node] = .ok ks ∧ .nodes ks = v := by
  rw [evaluate_path, bind_eq_ok]
  simp [pure, Except.pure]

/-- Steps behind a variable find what they find from its nodes in document order. -/
theorem evaluate_filter_variable_eq_ok {name : String} {focus : Focus N} {v : Value N}
    (h : env.bindings.get? name = some (.nodes ns)) :
    evaluate env (.filter (.variable name) [] ss) focus = .ok v ↔
      ∃ ks, evaluateSteps env ss (env.tree.inOrder ns) = .ok ks ∧ .nodes ks = v := by
  have hvariable : evaluate env (.variable name) focus = .ok (.nodes ns) := by
    rw [evaluate_variable, Env.variable, h]
  have hnodes : ((Value.nodes ns).nodes? "filtered expression").mapError EvalError.conversion
      = .ok ns := rfl
  rw [evaluate_filter]
  simp [bind_eq_ok, hvariable, hnodes, pure, Except.pure]

/-- The list is the union, in document order, of what the path from the context node finds at each
of the nodes. -/
def Env.Unites (env : Env N) (steps : List (Step Expr)) (position size : Nat) (ns ks : List N) :
    Prop :=
  env.tree.Ascending ks ∧ ∀ k, k ∈ ks ↔ ∃ n ∈ ns, ∃ found,
    evaluate env (.path false steps) ⟨n, position, size⟩ = .ok (.nodes found) ∧ k ∈ found

/-- Steps can be taken from several nodes exactly if the path has a value at each of them. -/
theorem exists_evaluateSteps_iff_evaluate (position size : Nat) :
    (∃ ks, evaluateSteps env ss ns = .ok ks) ↔
      ∀ n ∈ ns, ∃ v, evaluate env (.path false ss) ⟨n, position, size⟩ = .ok v := by
  rw [exists_evaluateSteps_iff]
  refine forall_congr' fun n => imp_congr_right fun _ => ?_
  have hsingle : (∃ ks, evaluateSteps env ss [n] = .ok ks) ↔ ∀ m ∈ [n], env.Follows ss m :=
    exists_evaluateSteps_iff
  rw [List.forall_mem_singleton] at hsingle
  simp only [evaluate_path_eq_ok]
  rw [← hsingle]
  constructor
  · rintro ⟨ks, hks⟩
    exact ⟨.nodes ks, ks, hks, rfl⟩
  · rintro ⟨_, ks, hks, -⟩
    exact ⟨ks, hks⟩

/-- Steps from several nodes unite what the path finds at each of them. -/
theorem evaluateSteps_unites (hT : env.tree.Ordered) (hss : ss ≠ []) {ks : List N}
    (h : evaluateSteps env ss ns = .ok ks) (position size : Nat) :
    env.Unites ss position size ns ks := by
  refine ⟨ascending_evaluateSteps hT hss h, fun k => ?_⟩
  rw [mem_evaluateSteps_iff h]
  refine exists_congr fun n => and_congr_right fun hn => ?_
  obtain ⟨v, hv⟩ := (exists_evaluateSteps_iff_evaluate position size).1 ⟨ks, h⟩ n hn
  obtain ⟨found, hfound, rfl⟩ := evaluate_path_eq_ok.1 hv
  have hsingle := mem_evaluateSteps_iff hfound k
  rw [hv]
  simp only [List.mem_singleton, exists_eq_left] at hsingle
  simp [hsingle]

/-- Steps behind a variable unite what the path finds at each of its nodes. -/
theorem evaluate_filter_variable (hT : env.tree.Ordered) (hss : ss ≠ []) {name : String}
    {focus : Focus N} (hname : env.bindings.get? name = some (.nodes ns)) (position size : Nat) :
    ((∃ v, evaluate env (.filter (.variable name) [] ss) focus = .ok v) ↔
      ∀ n ∈ ns, ∃ v, evaluate env (.path false ss) ⟨n, position, size⟩ = .ok v) ∧
    ∀ v, evaluate env (.filter (.variable name) [] ss) focus = .ok v →
      ∃ ks, v = .nodes ks ∧ env.Unites ss position size ns ks := by
  constructor
  · have hmem : ∀ P : N → Prop, (∀ n ∈ ns, P n) ↔ ∀ n ∈ env.tree.inOrder ns, P n := by
      simp [Tree.mem_inOrder]
    rw [hmem, ← exists_evaluateSteps_iff_evaluate position size]
    simp only [evaluate_filter_variable_eq_ok hname]
    constructor
    · rintro ⟨v, ks, hks, -⟩
      exact ⟨ks, hks⟩
    · rintro ⟨ks, hks⟩
      exact ⟨.nodes ks, ks, hks, rfl⟩
  · intro v hv
    obtain ⟨ks, hks, rfl⟩ := (evaluate_filter_variable_eq_ok hname).1 hv
    obtain ⟨hascending, hmem⟩ := evaluateSteps_unites hT hss hks position size
    refine ⟨ks, rfl, hascending, fun k => ?_⟩
    rw [hmem]
    simp only [Tree.mem_inOrder]

/-- Steps in two parts, the second not empty, have a result exactly if the first part has one and
the path made of the second has a value at each node of it.  They find the union, in document order,
of what that path finds at each of these nodes.  So do steps behind a variable, with the nodes of
the variable. -/
theorem evaluateSteps_compose {env : Env N} (hT : env.tree.Ordered) (ns : List N)
    (first : List (Step Expr)) {second : List (Step Expr)} (hsecond : second ≠ [])
    (position size : Nat) :
    ((∃ ks, evaluateSteps env (first ++ second) ns = .ok ks) ↔
      ∃ ms, evaluateSteps env first ns = .ok ms ∧
        ∀ m ∈ ms, ∃ v, evaluate env (.path false second) ⟨m, position, size⟩ = .ok v) ∧
    (∀ ks, evaluateSteps env (first ++ second) ns = .ok ks →
      ∃ ms, evaluateSteps env first ns = .ok ms ∧ env.Unites second position size ms ks) ∧
    ∀ name focus, env.bindings.get? name = some (.nodes ns) →
      ((∃ v, evaluate env (.filter (.variable name) [] second) focus = .ok v) ↔
        ∀ n ∈ ns, ∃ v, evaluate env (.path false second) ⟨n, position, size⟩ = .ok v) ∧
      ∀ v, evaluate env (.filter (.variable name) [] second) focus = .ok v →
        ∃ ks, v = .nodes ks ∧ env.Unites second position size ns ks := by
  refine ⟨?_, ?_, fun name focus hname => evaluate_filter_variable hT hsecond hname position size⟩
  · simp only [evaluateSteps_append_eq_ok, ← exists_evaluateSteps_iff_evaluate position size]
    constructor
    · rintro ⟨ks, ms, hms, hks⟩
      exact ⟨ms, hms, ks, hks⟩
    · rintro ⟨ms, hms, ks, hks⟩
      exact ⟨ks, ms, hms, hks⟩
  · intro ks h
    obtain ⟨ms, hms, hks⟩ := evaluateSteps_append_eq_ok.1 h
    exact ⟨ms, hms, evaluateSteps_unites hT hsecond hks position size⟩

/-- The sample, without variables. -/
def Env.sample : Env Nat :=
  ⟨Table.sample.tree, 0, .standard, .empty, true⟩

/-- From the children of the root to what the texts in them belong to. -/
theorem evaluateSteps_compose_sample :
    evaluateSteps .sample [⟨.child, .any, []⟩] [0] = .ok [1, 7, 11] ∧
    Env.sample.Unites [⟨.descendant, .text, []⟩, ⟨.parent, .node, []⟩] 1 1
      [1, 7, 11] [1, 8, 11] := by
  have hT : Env.sample.tree.Ordered := Tree.ordered_table Table.sample
  have hfirst : evaluateSteps .sample [⟨.child, .any, []⟩] [0] = .ok [1, 7, 11] := by
    refine evaluateSteps_cons_eq_ok.2 ⟨[[1, 7, 11]], by decide +kernel, ?_⟩
    rw [hT.inOrder_eq_self (by decide), evaluateSteps_nil]
    rfl
  have hsecond : evaluateSteps .sample [⟨.descendant, .text, []⟩, ⟨.parent, .node, []⟩] [1, 7, 11]
      = .ok [1, 8, 11] := by
    refine evaluateSteps_cons_eq_ok.2 ⟨[[5], [9], [12]], by decide +kernel, ?_⟩
    rw [hT.inOrder_eq_self (by decide)]
    refine evaluateSteps_cons_eq_ok.2 ⟨[[1], [8], [11]], by decide +kernel, ?_⟩
    rw [hT.inOrder_eq_self (by decide), evaluateSteps_nil]
    rfl
  obtain ⟨-, hunites, -⟩ := evaluateSteps_compose hT [0] [⟨.child, .any, []⟩]
    (List.cons_ne_nil ⟨.descendant, .text, []⟩ [⟨.parent, .node, []⟩]) 1 1
  have hboth := evaluateSteps_append_eq_ok.2 ⟨_, hfirst, hsecond⟩
  obtain ⟨ms, hms, hunites⟩ := hunites [1, 8, 11] hboth
  rw [hfirst, Except.ok.injEq] at hms
  exact ⟨hfirst, hms ▸ hunites⟩

end XPath
