import XPath.Proofs.Eval.Composition
import XPath.Proofs.Eval.Deciding

/-!
# Predicates one after the other

A predicate that has a value at every candidate only chooses among the candidates.  What it chooses
depends on the places at which they stand, unless its values take no account of places; then it
makes no difference which candidates an earlier predicate has left.

* `passes`, `keepWhere_eq`: what is kept where there is a value at every place;
* `Env.Steady`, `Env.holds`: a predicate that takes no account of places, and where it holds;
* `filterAll_steady`: such predicates filter a list;
* `Env.Settled`, `keepWhere_conjunction`: a conjunction chooses what its operands choose in turn;
* `select_conjunction`: two predicates of a step and their conjunction.
-/

namespace XPath

variable {N : Type}

/-! ### One predicate -/

def Value.NoNumber (v : Value N) : Prop :=
  ∀ x, v ≠ .number x

/-- A value that is no number keeps every position or none. -/
theorem keeps_of_noNumber {v : Value N} (hv : v.NoNumber) (position : Nat) :
    keeps position v = v.toBool := by
  cases v with
  | number x => exact absurd rfl (hv x)
  | _ => rfl

/-- Whether the outcome of a predicate keeps the node at a position. -/
def passes (position : Nat) : Except EvalError (Value N) → Bool
  | .ok v => keeps position v
  | .error _ => false

section OnePredicate

variable {value : N → Nat → Except EvalError (Value N)}

/-- Where there is a value at every place, those nodes are kept whose place its value keeps. -/
theorem keepWhere_eq (keep : N → Nat → Bool) (ns : List N) : ∀ position,
    (∀ x ∈ ns.zipIdx position, ∃ v, value x.1 x.2 = .ok v ∧ keeps x.2 v = keep x.1 x.2) →
      keepWhere value position ns
        = .ok (((ns.zipIdx position).filter fun x => keep x.1 x.2).map Prod.fst) := by
  induction ns with
  | nil => exact fun _ _ => rfl
  | cons n ns ih =>
    intro position h
    rw [List.zipIdx_cons] at h ⊢
    obtain ⟨⟨v, hv, hkeep⟩, hrest⟩ := List.forall_mem_cons.1 h
    have hv : value n position = .ok v := hv
    have hcons : ∀ rest, keepWhere value (position + 1) ns = .ok rest →
        keepWhere value position (n :: ns)
          = .ok (if keeps position v then n :: rest else rest) := by
      intro rest hrest
      rw [keepWhere, hv, hrest]
      rfl
    rw [hcons _ (ih _ hrest), List.filter_cons, ← hkeep]
    cases keeps position v with
    | false => rfl
    | true => rfl

theorem keepWhere_of_values (ns : List N) (position : Nat)
    (h : ∀ x ∈ ns.zipIdx position, ∃ v, value x.1 x.2 = .ok v) :
    keepWhere value position ns
      = .ok (((ns.zipIdx position).filter fun x => passes x.2 (value x.1 x.2)).map Prod.fst) := by
  refine keepWhere_eq (fun n i => passes i (value n i)) ns position fun x hx => ?_
  obtain ⟨v, hv⟩ := h x hx
  exact ⟨v, hv, by rw [hv, passes]⟩

/-- Where the places make no difference, the nodes are filtered. -/
theorem keepWhere_eq_filter {keep : N → Bool} (ns : List N)
    (h : ∀ n ∈ ns, ∀ i, ∃ v, value n i = .ok v ∧ keeps i v = keep n) (position : Nat) :
    keepWhere value position ns = .ok (ns.filter keep) := by
  have hmem : ∀ x ∈ ns.zipIdx position, x.1 ∈ ns := by
    intro x hx
    have hfst : x.1 ∈ (ns.zipIdx position).map Prod.fst := List.mem_map_of_mem hx
    rwa [List.zipIdx_map_fst] at hfst
  have hkept := keepWhere_eq (fun n _ => keep n) ns position fun x hx => h x.1 (hmem x hx) x.2
  have hfilter : ((ns.zipIdx position).map Prod.fst).filter keep
      = ((ns.zipIdx position).filter fun x => keep x.1).map Prod.fst := List.filter_map
  rw [hkept, ← hfilter, List.zipIdx_map_fst]

end OnePredicate

variable [DecidableEq N] {env : Env N} {n : N} {ns : List N}

/-! ### Predicates that take no account of places -/

/-- At the node the predicate has the same value at every position among any number of nodes, and
that is no number. -/
def Env.Steady (env : Env N) (p : Expr) (n : N) : Prop :=
  ∃ v : Value N, v.NoNumber ∧ ∀ position size, evaluate env p ⟨n, position, size⟩ = .ok v

/-- Whether a predicate keeps a node that is considered alone. -/
def Env.holds (env : Env N) (p : Expr) (n : N) : Bool :=
  passes 1 (evaluate env p ⟨n, 1, 1⟩)

theorem Env.Steady.exists_value {p : Expr} (h : env.Steady p n) (position size : Nat) :
    ∃ v, evaluate env p ⟨n, position, size⟩ = .ok v ∧ v.NoNumber ∧ v.toBool = env.holds p n := by
  obtain ⟨v, hv, hvalue⟩ := h
  refine ⟨v, hvalue position size, hv, ?_⟩
  rw [Env.holds, hvalue 1 1, passes, keeps_of_noNumber hv]

theorem keepWhere_steady {p : Expr} (h : ∀ n ∈ ns, env.Steady p n) (position size : Nat) :
    keepWhere (fun n i => evaluate env p ⟨n, i, size⟩) position ns
      = .ok (ns.filter (env.holds p)) := by
  refine keepWhere_eq_filter ns (fun n hn i => ?_) position
  obtain ⟨v, hvalue, hv, hholds⟩ := (h n hn).exists_value i size
  exact ⟨v, hvalue, by rw [keeps_of_noNumber hv, hholds]⟩

/-- Predicates that take no account of places filter a list. -/
theorem filterAll_steady (ps : List Expr) : ∀ ns, (∀ p ∈ ps, ∀ n ∈ ns, env.Steady p n) →
    filterAll env ps ns = .ok (ns.filter fun n => ps.all fun p => env.holds p n) := by
  induction ps with
  | nil =>
    intro ns _
    have hall : (ns.filter fun n => [].all fun p => env.holds p n) = ns :=
      List.filter_eq_self.2 fun _ _ => rfl
    rw [filterAll_nil, hall]
  | cons p ps ih =>
    intro ns h
    obtain ⟨hp, hps⟩ := List.forall_mem_cons.1 h
    have hrest : ∀ q ∈ ps, ∀ m ∈ ns.filter (env.holds p), env.Steady q m :=
      fun q hq m hm => hps q hq m (List.mem_filter.1 hm).1
    rw [filterAll_cons, keepWhere_steady hp]
    show filterAll env ps (ns.filter (env.holds p)) = _
    rw [ih _ hrest, List.filter_filter]
    simp only [List.all_cons, Bool.and_comm]

/-! ### Two predicates and their conjunction -/

/-- At every place of the list the predicate has a value that is no number. -/
def Env.Settled (env : Env N) (p : Expr) (ns : List N) : Prop :=
  ∀ x ∈ ns.zipIdx 1, ∃ v : Value N, v.NoNumber ∧ evaluate env p ⟨x.1, x.2, ns.length⟩ = .ok v

/-- A conjunction keeps what its second operand keeps of the nodes that the first one keeps. -/
theorem keepWhere_conjunction {a b : Expr} (ha : env.Settled a ns)
    (hb : ∀ n ∈ ns, env.Steady b n) :
    ∃ ms, ms.Sublist ns ∧
      keepWhere (fun n i => evaluate env a ⟨n, i, ns.length⟩) 1 ns = .ok ms ∧
      keepWhere (fun n i => evaluate env (.connect .and a b) ⟨n, i, ns.length⟩) 1 ns
        = .ok (ms.filter (env.holds b)) := by
  have hfst : (ns.zipIdx 1).map Prod.fst = ns := List.zipIdx_map_fst 1 ns
  -- place by place: the second operand takes no account of places
  have hplace : ∀ x ∈ ns.zipIdx 1, ∃ v,
      evaluate env (.connect .and a b) ⟨x.1, x.2, ns.length⟩ = .ok v ∧ keeps x.2 v
        = (env.holds b x.1 && passes x.2 (evaluate env a ⟨x.1, x.2, ns.length⟩)) := by
    intro x hx
    have hmem : x.1 ∈ ns := hfst ▸ List.mem_map_of_mem hx
    obtain ⟨v, hv, hvalue⟩ := ha x hx
    obtain ⟨w, hw, -, hholds⟩ := (hb x.1 hmem).exists_value x.2 ns.length
    refine ⟨_, evaluate_connect_values .and hvalue hw, ?_⟩
    rw [hvalue, passes, keeps_of_noNumber hv, ← hholds, Bool.and_comm]
    rfl
  have hleft : keepWhere (fun n i => evaluate env a ⟨n, i, ns.length⟩) 1 ns = .ok _ :=
    keepWhere_of_values ns 1 fun x hx => (ha x hx).imp fun _ hv => hv.2
  have hboth : keepWhere (fun n i => evaluate env (.connect .and a b) ⟨n, i, ns.length⟩) 1 ns
      = .ok _ :=
    keepWhere_eq (fun n i => env.holds b n && passes i (evaluate env a ⟨n, i, ns.length⟩)) ns 1
      hplace
  have hsub : (((ns.zipIdx 1).filter fun x =>
      passes x.2 (evaluate env a ⟨x.1, x.2, ns.length⟩)).map Prod.fst).Sublist
        ((ns.zipIdx 1).map Prod.fst) := List.filter_sublist.map Prod.fst
  rw [hfst] at hsub
  refine ⟨_, hsub, hleft, ?_⟩
  rw [hboth, ← List.filter_filter, List.filter_map]
  rfl

/-- Filtering by one predicate and then by the other is filtering by their conjunction. -/
theorem filterAll_conjunction {a b : Expr} (ha : env.Settled a ns)
    (hb : ∀ n ∈ ns, env.Steady b n) :
    ∃ ms, filterAll env [a, b] ns = .ok ms ∧ filterAll env [.connect .and a b] ns = .ok ms := by
  obtain ⟨ms, hms, hleft, hboth⟩ := keepWhere_conjunction ha hb
  have hright := filterAll_steady [b] ms fun p hp m hm => by
    rw [List.mem_singleton.1 hp]
    exact hb m (hms.subset hm)
  refine ⟨ms.filter (env.holds b), ?_, ?_⟩
  · rw [filterAll_cons, hleft]
    show filterAll env [b] ms = _
    simpa using hright
  · rw [filterAll_cons, hboth]
    rfl

/-- The order of predicates that take no account of places makes no difference. -/
theorem filterAll_perm {ps qs : List Expr} (hperm : ps.Perm qs)
    (h : ∀ p ∈ ps, ∀ n ∈ ns, env.Steady p n) : filterAll env ps ns = filterAll env qs ns := by
  rw [filterAll_steady ps ns h, filterAll_steady qs ns fun q hq => h q (hperm.mem_iff.2 hq)]
  simp only [hperm.all_eq]

/-! ### Steps -/

/-- The later predicates of a step choose among the nodes that the step selects with the earlier
ones. -/
theorem select_append (axis : Axis) (test : NodeTest) (ps qs : List Expr) (n : N) :
    select env ⟨axis, test, ps ++ qs⟩ n = select env ⟨axis, test, ps⟩ n >>= filterAll env qs := by
  have happend : ∀ ns, filterAll env (ps ++ qs) ns = filterAll env ps ns >>= filterAll env qs := by
    induction ps with
    | nil => exact fun _ => rfl
    | cons p ps ih =>
      intro ns
      rw [List.cons_append, filterAll_cons, filterAll_cons, bind_assoc]
      simp only [ih]
  rw [select_step, select_step, bind_assoc]
  simp only [happend]

/-- From a single node a step finds what it selects there. -/
theorem evaluateSteps_single (s : Step Expr) (n : N) :
    evaluateSteps env [s] [n] = (select env s n).map env.tree.inOrder := by
  rw [evaluateSteps_cons, List.mapM_cons, List.mapM_nil]
  cases select env s n with
  | error e => rfl
  | ok ms =>
    show Except.ok (env.tree.inOrder [ms].flatten) = Except.ok (env.tree.inOrder ms)
    rw [List.flatten_singleton]

/-- At each of the candidates of a step let one predicate have a value at its place, and let the
other take no account of places, and let none of these values be a number.  Then the step selects
the same nodes with the two predicates as with their conjunction, and if the first one takes no
account of places either, in the other order too. -/
theorem select_conjunction (axis : Axis) (test : NodeTest) (n : N) {a b : Expr}
    (ha : ∀ ns, select env ⟨axis, test, []⟩ n = .ok ns → env.Settled a ns)
    (hb : ∀ ns, select env ⟨axis, test, []⟩ n = .ok ns → ∀ m ∈ ns, env.Steady b m) :
    select env ⟨axis, test, [a, b]⟩ n = select env ⟨axis, test, [.connect .and a b]⟩ n ∧
    ((∀ ns, select env ⟨axis, test, []⟩ n = .ok ns → ∀ m ∈ ns, env.Steady a m) →
      select env ⟨axis, test, [b, a]⟩ n = select env ⟨axis, test, [.connect .and a b]⟩ n) ∧
    ∀ ns, select env ⟨axis, test, []⟩ n = .ok ns →
      ∃ ms, select env ⟨axis, test, [.connect .and a b]⟩ n = .ok ms := by
  have hselect : ∀ qs, select env ⟨axis, test, qs⟩ n
      = select env ⟨axis, test, []⟩ n >>= filterAll env qs :=
    fun qs => select_append axis test [] qs n
  rw [hselect [a, b], hselect [b, a], hselect [.connect .and a b]]
  cases hns : select env ⟨axis, test, []⟩ n with
  | error e => exact ⟨rfl, fun _ => rfl, by simp⟩
  | ok ns =>
    obtain ⟨ms, htwo, hone⟩ := filterAll_conjunction (ha ns hns) (hb ns hns)
    refine ⟨htwo.trans hone.symm, fun ha => ?_, fun _ _ => ⟨ms, hone⟩⟩
    have hsteady : ∀ p ∈ [b, a], ∀ m ∈ ns, env.Steady p m :=
      List.forall_mem_cons.2 ⟨hb ns hns, List.forall_mem_singleton.2 (ha ns rfl)⟩
    exact (filterAll_perm (.swap a b []) hsteady).trans (htwo.trans hone.symm)

/-- Among the children of the root, those that stand before the last one and have a name. -/
theorem select_conjunction_sample : ∃ a b : Expr,
    a = .compare .lt (.call "position" []) (.call "last" []) ∧ b = .call "name" [] ∧
    select .sample ⟨.child, .node, []⟩ 0 = .ok [1, 6, 7, 10, 11] ∧
    Env.sample.Settled a [1, 6, 7, 10, 11] ∧ (∀ m ∈ [1, 6, 7, 10, 11], Env.sample.Steady b m) ∧
    select .sample ⟨.child, .node, [a, b]⟩ 0
      = select .sample ⟨.child, .node, [.connect .and a b]⟩ 0 := by
  refine ⟨_, _, rfl, rfl, ?_⟩
  have hcandidates : select Env.sample ⟨.child, .node, []⟩ 0 = .ok [1, 6, 7, 10, 11] := by
    decide +kernel
  have ha : Env.sample.Settled (.compare .lt (.call "position" []) (.call "last" []))
      [1, 6, 7, 10, 11] := by
    intro x hx
    simp only [List.zipIdx_cons, List.zipIdx_nil, List.mem_cons, List.not_mem_nil, or_false] at hx
    rcases hx with rfl | rfl | rfl | rfl | rfl
    · exact ⟨.boolean true, fun _ => nofun, rfl⟩
    · exact ⟨.boolean true, fun _ => nofun, rfl⟩
    · exact ⟨.boolean true, fun _ => nofun, rfl⟩
    · exact ⟨.boolean true, fun _ => nofun, rfl⟩
    · exact ⟨.boolean false, fun _ => nofun, rfl⟩
  have hb : ∀ m ∈ [1, 6, 7, 10, 11], Env.sample.Steady (.call "name" []) m := by
    intro m _
    exact ⟨.string ((Env.sample.tree.name m).elim "" QName.toText), fun _ => nofun, fun _ _ => rfl⟩
  refine ⟨hcandidates, ha, hb, ?_⟩
  refine (select_conjunction .child .node 0 ?_ ?_).1
  · intro ns hns
    rw [hcandidates, Except.ok.injEq] at hns
    exact hns ▸ ha
  · intro ns hns
    rw [hcandidates, Except.ok.injEq] at hns
    exact hns ▸ hb

end XPath
