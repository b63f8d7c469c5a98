import XPath.Proofs.Calls
import XPath.Proofs.Eval.Agreement
import XPath.Proofs.Tree.Order

/-!
# Node-sets as sets

A node-set is held as a list, but neither the order of the list nor a repetition in it has a
meaning.  Where document order is total, every conversion, comparison and function looks at the
members only, the first of them or some of them; all but `count` and `sum`, which go through the
list.

* `Value.Alike`: equal values, or node-sets with the same members;
* `Value.coupling_alike`: conversions and comparisons cannot tell such values;
* `Env.respects_alike`: neither can a function other than `count` and `sum`;
* `evaluate_alike`: expressions.
-/

namespace XPath

variable {N : Type}

/-- The values are equal, or node-sets with the same members. -/
inductive Value.Alike : Value N → Value N → Prop
  | same (v : Value N) : Alike v v
  | nodes {ns ms : List N} (h : ∀ n, n ∈ ns ↔ n ∈ ms) : Alike (.nodes ns) (.nodes ms)

/-! ### Lists with the same members -/

theorem any_congr_of_mem {ns ms : List N} (h : ∀ n, n ∈ ns ↔ n ∈ ms) (p : N → Bool) :
    ns.any p = ms.any p := by
  rw [Bool.eq_iff_iff, List.any_eq_true, List.any_eq_true]
  simp only [h]

theorem isEmpty_congr_of_mem {ns ms : List N} (h : ∀ n, n ∈ ns ↔ n ∈ ms) :
    ns.isEmpty = ms.isEmpty := by
  rw [Bool.eq_iff_iff, List.isEmpty_iff, List.isEmpty_iff, List.eq_nil_iff_forall_not_mem,
    List.eq_nil_iff_forall_not_mem]
  simp only [h]

/-! ### Conversions -/

namespace Value.Alike

variable {v w : Value N}

theorem toBool (h : v.Alike w) : v.toBool = w.toBool := by
  cases h with
  | same v => rfl
  | nodes h => exact congrArg not (isEmpty_congr_of_mem h)

theorem keeps (position : Nat) (h : v.Alike w) :
    XPath.keeps position v = XPath.keeps position w := by
  cases h with
  | same v => rfl
  | nodes h => exact toBool (.nodes h)

theorem nodes? (role : String) (h : v.Alike w) : Agree (fun _ => False)
    (fun ns ms => ∀ n, n ∈ ns ↔ n ∈ ms) (v.nodes? role) (w.nodes? role) := by
  cases h with
  | same v => exact (Agree.refl _).mono fun ns ms heq n => by rw [heq]
  | nodes h => exact .ok h

variable {T : Tree N} (hT : T.Ordered)
include hT

theorem toText (h : v.Alike w) : v.toText T = w.toText T := by
  cases h with
  | same v => rfl
  | nodes h => rw [Value.toText, Value.toText, hT.first?_congr h]

theorem toNumber (h : v.Alike w) : v.toNumber T = w.toNumber T := by
  cases h with
  | same v => rfl
  | nodes h => rw [Value.toNumber, Value.toNumber, hT.first?_congr h]

end Value.Alike

/-! ### Comparisons -/

namespace Comparison

variable (T : Tree N) (op : Comparison) {ns ms : List N} (h : ∀ n, n ∈ ns ↔ n ∈ ms)
include h

theorem nodesWith_congr (v : Value N) : op.nodesWith T ns v = op.nodesWith T ms v := by
  cases v with
  | nodes ls => rfl
  | string s => exact any_congr_of_mem h _
  | number x => exact any_congr_of_mem h _
  | boolean b => rw [nodesWith, nodesWith, isEmpty_congr_of_mem h]

theorem values_congr_left (v : Value N) :
    op.values T (.nodes ns) v = op.values T (.nodes ms) v := by
  cases v with
  | nodes ls => exact any_congr_of_mem h _
  | string s => exact op.nodesWith_congr T h (.string s)
  | number x => exact op.nodesWith_congr T h (.number x)
  | boolean b => exact op.nodesWith_congr T h (.boolean b)

theorem values_congr_right (v : Value N) :
    op.values T v (.nodes ns) = op.values T v (.nodes ms) := by
  cases v with
  | nodes ls =>
    have hinner : ∀ n, (ns.any fun m => op.texts (T.stringValue n) (T.stringValue m))
        = ms.any fun m => op.texts (T.stringValue n) (T.stringValue m) :=
      fun n => any_congr_of_mem h _
    simp only [values, hinner]
  | string s => exact op.mirror.nodesWith_congr T h (.string s)
  | number x => exact op.mirror.nodesWith_congr T h (.number x)
  | boolean b => exact op.mirror.nodesWith_congr T h (.boolean b)

end Comparison

/-- Conversions and comparisons cannot tell node-sets with the same members. -/
theorem Value.coupling_alike [DecidableEq N] {T : Tree N} (hT : T.Ordered) :
    Value.Coupling T Value.Alike where
  refl := .same
  toBool h := h.toBool
  keeps position h := h.keeps position
  nodes role h := (h.nodes? role).mono fun _ _ hmem => hT.inOrder_congr hmem
  compare := by
    intro v w v' w' op h h'
    have hleft : op.values T v v' = op.values T w v' := by
      cases h with
      | same v => rfl
      | nodes h => exact op.values_congr_left T h v'
    have hright : op.values T w v' = op.values T w w' := by
      cases h' with
      | same v' => rfl
      | nodes h' => exact op.values_congr_right T h' w
    rw [hleft, hright]

/-! ### Functions -/

namespace Builtin

variable {vs ws : List (Value N)}

theorem any_toBool_alike (h : List.Forall₂ Value.Alike vs ws) :
    vs.any Value.toBool = ws.any Value.toBool := by
  induction h with
  | nil => rfl
  | cons hvw _ ih => rw [List.any_cons, List.any_cons, hvw.toBool, ih]

theorem getElem?_alike (h : List.Forall₂ Value.Alike vs ws) (i : Nat) :
    Option.Rel Value.Alike vs[i]? ws[i]? := by
  induction h generalizing i with
  | nil => exact .none
  | cons hvw _ ih =>
    cases i with
    | zero => exact .some hvw
    | succ i => exact ih i

theorem argument_alike (f : Builtin) (h : List.Forall₂ Value.Alike vs ws) (i : Nat) :
    Agree (fun _ => False) Value.Alike (f.argument vs i) (f.argument ws i) := by
  have hget := getElem?_alike h i
  unfold argument
  cases hv : vs[i]? with
  | none =>
    rw [hv] at hget
    cases hw : ws[i]? with
    | none => exact .error _
    | some w =>
      rw [hw] at hget
      cases hget
  | some v =>
    rw [hv] at hget
    cases hw : ws[i]? with
    | none =>
      rw [hw] at hget
      cases hget
    | some w =>
      rw [hw] at hget
      cases hget with
      | some hvw => exact .ok hvw

theorem nodesArgument_alike (f : Builtin) (h : List.Forall₂ Value.Alike vs ws) :
    Agree (fun _ => False) (fun ns ms => ∀ n, n ∈ ns ↔ n ∈ ms) (f.nodesArgument vs)
      (f.nodesArgument ws) := by
  refine (f.argument_alike h 0).bind ?_
  intro v w hvw
  exact (hvw.nodes? f.argumentRole).mapError EvalError.conversion

variable {T : Tree N} (hT : T.Ordered) (focus : Focus N)
include hT

theorem map_toText_alike (h : List.Forall₂ Value.Alike vs ws) :
    vs.map (Value.toText T) = ws.map (Value.toText T) := by
  induction h with
  | nil => rfl
  | cons hvw _ ih => rw [List.map_cons, List.map_cons, hvw.toText hT, ih]

theorem textOrContext_alike (h : List.Forall₂ Value.Alike vs ws) :
    textOrContext T vs focus = textOrContext T ws focus := by
  cases h with
  | nil => rfl
  | cons hvw _ => exact hvw.toText hT

theorem numberOrNan_alike (h : List.Forall₂ Value.Alike vs ws) :
    numberOrNan T vs = numberOrNan T ws := by
  cases h with
  | nil => rfl
  | cons hvw _ => exact hvw.toNumber hT

/-- Names are those of the first node of a node-set. -/
theorem subjectName_alike (f : Builtin) (h : List.Forall₂ Value.Alike vs ws) :
    f.subjectName T vs focus = f.subjectName T ws focus := by
  cases h with
  | nil => rfl
  | cons hvw hrest =>
    refine Agree.eq ((f.nodesArgument_alike (.cons hvw hrest)).bind ?_)
    intro ns ms hmem
    rw [hT.first?_congr hmem]
    exact .refl _

/-- The context node is the same in both calls. -/
theorem numberOrContext_alike (h : List.Forall₂ Value.Alike vs ws) :
    (vs.headD (.nodes [focus.node])).toNumber T = (ws.headD (.nodes [focus.node])).toNumber T := by
  cases h with
  | nil => rfl
  | cons hvw _ => exact hvw.toNumber hT

/-- The functions that ask for their second argument first test two texts. -/
theorem twoTexts_alike (f : Builtin) (test : String → String → Bool)
    (h : List.Forall₂ Value.Alike vs ws) :
    (do let v ← f.argument vs 1
        let w ← f.argument vs 0
        return (.boolean (test (v.toText T) (w.toText T)) : Value N))
      = (do let v ← f.argument ws 1
            let w ← f.argument ws 0
            return Value.boolean (test (v.toText T) (w.toText T))) := by
  refine Agree.eq ((f.argument_alike h 1).bind ?_)
  intro v v' hv
  refine (f.argument_alike h 0).bind ?_
  intro w w' hw
  rw [hv.toText hT, hw.toText hT]
  exact .refl _

/-- Every function but `count` and `sum` has the same value for node-sets with the same members. -/
theorem apply_alike (f : Builtin) (hcount : f ≠ count) (hsum : f ≠ sum)
    (h : List.Forall₂ Value.Alike vs ws) : f.apply T vs focus = f.apply T ws focus := by
  cases f with
  | count => exact absurd rfl hcount
  | sum => exact absurd rfl hsum
  | boolean => rw [apply, apply, any_toBool_alike h]
  | negation => rw [apply, apply, any_toBool_alike h]
  | truth => rfl
  | falsity => rfl
  | lang =>
    refine Agree.eq ((lang.argument_alike h 0).bind ?_)
    intro v w hvw
    rw [hvw.toText hT]
    exact .refl _
  | number => rw [apply, apply, numberOrContext_alike hT focus h]
  | floor => rw [apply, apply, numberOrNan_alike hT h]
  | ceiling => rw [apply, apply, numberOrNan_alike hT h]
  | round => rw [apply, apply, numberOrNan_alike hT h]
  | string => rw [apply, apply, textOrContext_alike hT focus h]
  | position => rfl
  | last => rfl
  | localName => rw [apply, apply, subjectName_alike hT focus _ h]
  | name => rw [apply, apply, subjectName_alike hT focus _ h]
  | concat => rw [apply, apply, map_toText_alike hT h]
  | contains => exact twoTexts_alike hT contains (fun t s => occursIn t.toList s.toList) h
  | startsWith => exact twoTexts_alike hT startsWith (fun t s => t.toList.isPrefixOf s.toList) h
  | stringLength => rw [apply, apply, textOrContext_alike hT focus h]
  | normalizeSpace => rw [apply, apply, textOrContext_alike hT focus h]

end Builtin

/-- No call but those of `count` and `sum` can tell node-sets with the same members. -/
theorem Env.respects_alike {env : Env N} (hT : env.tree.Ordered) {name : String}
    (hcount : name ≠ "count") (hsum : name ≠ "sum") : env.Respects Value.Alike name := by
  intro vs ws focus h
  unfold callFunction
  rw [h.length_eq]
  cases env.functions.check name ws.length with
  | error e => rfl
  | ok _ =>
    cases hf : Builtin.ofWord? name with
    | none => rfl
    | some f =>
      have hword : f.word = name := by simpa using List.find?_some hf
      refine Builtin.apply_alike hT focus f ?_ ?_ h
      · rintro rfl
        exact hcount hword.symm
      · rintro rfl
        exact hsum hword.symm

/-! ### Expressions -/

variable [DecidableEq N]

/-- Without `count` and `sum`, two evaluations whose variables have equal values, or node-sets with
the same members, end alike: with the same error, or with such values again.  Unless the expression
is a variable itself, the values are equal, node-sets as lists. -/
theorem evaluate_alike {env : Env N} (hT : env.tree.Ordered) {bindings : Bindings N}
    (hb : ∀ name, Option.Rel Value.Alike (env.bindings.get? name) (bindings.get? name)) {e : Expr}
    (hcalls : ∀ name args, .call name args ∈ e.parts → name ≠ "count" ∧ name ≠ "sum")
    (focus : Focus N) :
    ((∃ error, evaluate env e focus = .error error ∧
        evaluate { env with bindings := bindings } e focus = .error error) ∨
      ∃ v w, evaluate env e focus = .ok v ∧
        evaluate { env with bindings := bindings } e focus = .ok w ∧ v.Alike w) ∧
    ((∀ name, e ≠ .variable name) →
      evaluate env e focus = evaluate { env with bindings := bindings } e focus) := by
  have hcoupling := Value.coupling_alike hT
  -- the two evaluations differ in their variables only
  have hvars : ∀ name, .variable name ∈ e.parts → Agree (fun _ => False) Value.Alike
      (env.variable name) ((env.rebind bindings env.strict).variable name) := by
    intro name _
    have hname := hb name
    unfold Env.variable Env.rebind
    generalize env.bindings.get? name = v at *
    generalize bindings.get? name = w at *
    cases hname with
    | none => exact (Agree.refl _).mono fun v w heq => heq ▸ .same v
    | some hvw => exact .ok hvw
  have hrespects : ∀ name args, .call name args ∈ e.parts → env.Respects Value.Alike name :=
    fun name args hcall =>
      Env.respects_alike hT (hcalls name args hcall).1 (hcalls name args hcall).2
  constructor
  · exact (couples_of_parts hcoupling hvars hrespects e (fun _ hp => hp) focus).error_or_ok
  · intro hvar
    exact (agree_of_parts hcoupling hvars hrespects (fun _ hp => hp) hvar focus).eq

/-- The texts of the nodes kept that are named like the first of them,
`$kept[name() = name($kept)]/text()`, with the paragraphs of the sample kept in two ways. -/
theorem evaluate_alike_kept : ∃ e : Expr, ∃ env : Env Nat,
    e = .filter (.variable "kept")
      [.compare .eq (.call "name" []) (.call "name" [.variable "kept"])] [⟨.child, .text, []⟩] ∧
    env = ⟨Table.sample.tree, 0, .standard, Bindings.empty.set "kept" (.nodes [1, 11]), true⟩ ∧
    evaluate env e ⟨0, 1, 1⟩ = evaluate
      { env with bindings := Bindings.empty.set "kept" (.nodes [11, 1, 11]) } e ⟨0, 1, 1⟩ := by
  refine ⟨_, _, rfl, rfl, ?_⟩
  refine (evaluate_alike (Tree.ordered_table Table.sample) ?_ ?_ _).2 (by simp)
  · intro name
    rw [Bindings.get?_set, Bindings.get?_set]
    split
    · exact .some (.nodes (by simp [or_comm]))
    · exact .none
  · intro name args h
    simp only [Expr.parts, partsOfAll, partsOfSteps, partsOfStep] at h
    simp at h
    rcases h with ⟨rfl, -⟩ | ⟨rfl, -⟩ <;> decide

end XPath
