import XPath.Builtin.Apply
import XPath.Expr
import XPath.Value.Compare

/-!
# The value of an expression

* `NodeTest.accepts`: whether a step accepts a node;
* `keepWhere`: filters nodes by a predicate that knows their positions;
* `evaluate`: the value of an expression;
* `evaluateSteps`: the nodes to which steps lead;
* `select`: the nodes that one step selects from one node;
* `evaluate_call`, `evaluateSteps_cons` and their kin: one equation for each form.

The nodes found by a step are brought into document order; the positions of its predicates count
along the axis.
-/

namespace XPath

variable {N : Type}

/-! ### Tests -/

def Axis.principalKind : Axis → NodeKind
  | .attribute => .attribute
  | .namespaceNode => .namespaceNode
  | _ => .element

/-- Whether a node passes a test on the given axis. -/
def NodeTest.accepts (T : Tree N) (axis : Axis) (test : NodeTest) (n : N) : Bool :=
  match test with
  | .any => T.kind n == axis.principalKind
  | .name space localPart =>
    T.kind n == axis.principalKind && (T.name n).any fun q =>
      (space.isNone || q.space == space) && (localPart == "*" || q.localPart == localPart)
  | .text => T.kind n == .text
  | .comment => T.kind n == .comment
  | .instruction target =>
    T.kind n == .instruction &&
      (target.isNone || (T.name n).any fun q => some q.localPart == target)
  | .node => true

/-- Whether a predicate with the given value keeps the node at a position: a number stands for the
position itself. -/
def keeps (position : Nat) : Value N → Bool
  | .number x => x == Float.ofNat position
  | v => v.toBool

/-- The nodes that a predicate keeps, the first of them being at the given position. -/
def keepWhere (value : N → Nat → Except EvalError (Value N)) :
    Nat → List N → Except EvalError (List N)
  | _, [] => return []
  | position, n :: ns => do
    let v ← value n position
    let rest ← keepWhere value (position + 1) ns
    return if keeps position v then n :: rest else rest

/-- The value of a variable; without one it is the empty text, or an error where that is strict. -/
def Env.variable (env : Env N) (name : String) : Except EvalError (Value N) :=
  match env.bindings.get? name with
  | some v => .ok v
  | none => if env.strict then .error (.unknownVariable name) else .ok (.string "")

/-- Whether the left operand of a logical operator settles its value. -/
def Connective.decides : Connective → Bool → Bool
  | .or, b => b
  | .and, b => !b

/-! ### Evaluation -/

variable [DecidableEq N]

mutual

/-- The value of an expression at a focus. -/
def evaluate (env : Env N) (e : Expr) (focus : Focus N) : Except EvalError (Value N) :=
  match e with
  | .literal s => return .string s
  | .number x => return .number x
  | .variable name => env.variable name
  | .call name args => do
    let values ← evaluateAll env args focus
    callFunction env.tree env.functions name values focus
  | .path absolute steps => do
    let ns ← evaluateSteps env steps [if absolute then env.root else focus.node]
    return .nodes ns
  | .filter primary predicates steps => do
    let v ← evaluate env primary focus
    let ns ← (v.nodes? "filtered expression").mapError .conversion
    -- the nodes of a variable may come in any order
    let kept ← filterAll env predicates (env.tree.inOrder ns)
    let ms ← evaluateSteps env steps kept
    return .nodes ms
  | .compare op left right => do
    let l ← evaluate env left focus
    let r ← evaluate env right focus
    return .boolean (op.values env.tree l r)
  | .connect op left right => do
    let l ← evaluate env left focus
    -- the right operand is not looked at if the left one decides
    if op.decides l.toBool then return .boolean l.toBool
    let r ← evaluate env right focus
    return .boolean (op.values l r)

def evaluateAll (env : Env N) (es : List Expr) (focus : Focus N) :
    Except EvalError (List (Value N)) :=
  match es with
  | [] => return []
  | e :: es => do
    let v ← evaluate env e focus
    let vs ← evaluateAll env es focus
    return v :: vs

/-- The nodes that pass predicates one after the other; each predicate counts the nodes that the one
before it left. -/
def filterAll (env : Env N) (predicates : List Expr) (ns : List N) : Except EvalError (List N) :=
  match predicates with
  | [] => return ns
  | p :: ps => do
    let kept ← keepWhere (fun n position => evaluate env p ⟨n, position, ns.length⟩) 1 ns
    filterAll env ps kept

/-- The nodes that a step selects from a node, in the order of the axis. -/
def select (env : Env N) (step : Step Expr) (n : N) : Except EvalError (List N) :=
  match step with
  | ⟨axis, test, predicates⟩ => do
    let ns ← (env.tree.along (test.accepts env.tree axis) axis n).mapError .tree
    filterAll env predicates ns

/-- The nodes to which steps lead from given nodes, in document order after every step. -/
def evaluateSteps (env : Env N) (steps : List (Step Expr)) (ns : List N) :
    Except EvalError (List N) :=
  match steps with
  | [] => return ns
  | s :: ss => do
    let found ← ns.mapM fun n => select env s n
    evaluateSteps env ss (env.tree.inOrder found.flatten)

end

/-! ### Equations -/

section Equations

variable (env : Env N) (focus : Focus N)

theorem evaluate_literal (s : String) : evaluate env (.literal s) focus = .ok (.string s) := rfl

theorem evaluate_number (x : Float) : evaluate env (.number x) focus = .ok (.number x) := rfl

theorem evaluate_variable (name : String) :
    evaluate env (.variable name) focus = env.variable name := rfl

theorem evaluate_call (name : String) (args : List Expr) :
    evaluate env (.call name args) focus = (do
      let values ← evaluateAll env args focus
      callFunction env.tree env.functions name values focus) := rfl

theorem evaluate_path (absolute : Bool) (steps : List (Step Expr)) :
    evaluate env (.path absolute steps) focus = (do
      let ns ← evaluateSteps env steps [if absolute then env.root else focus.node]
      return .nodes ns) := rfl

theorem evaluate_filter (primary : Expr) (predicates : List Expr) (steps : List (Step Expr)) :
    evaluate env (.filter primary predicates steps) focus = (do
      let v ← evaluate env primary focus
      let ns ← (v.nodes? "filtered expression").mapError .conversion
      let kept ← filterAll env predicates (env.tree.inOrder ns)
      let ms ← evaluateSteps env steps kept
      return .nodes ms) := rfl

theorem evaluate_compare (op : Comparison) (left right : Expr) :
    evaluate env (.compare op left right) focus = (do
      let l ← evaluate env left focus
      let r ← evaluate env right focus
      return .boolean (op.values env.tree l r)) := rfl

theorem evaluate_connect (op : Connective) (left right : Expr) :
    evaluate env (.connect op left right) focus = (do
      let l ← evaluate env left focus
      if op.decides l.toBool then return .boolean l.toBool
      let r ← evaluate env right focus
      return .boolean (op.values l r)) := rfl

@[simp] theorem evaluateAll_nil : evaluateAll env [] focus = .ok [] := rfl

theorem evaluateAll_cons (e : Expr) (es : List Expr) : evaluateAll env (e :: es) focus = (do
    let v ← evaluate env e focus
    let vs ← evaluateAll env es focus
    return v :: vs) := rfl

variable (ns : List N)

@[simp] theorem filterAll_nil : filterAll env [] ns = .ok ns := rfl

theorem filterAll_cons (p : Expr) (ps : List Expr) : filterAll env (p :: ps) ns = (do
    let kept ← keepWhere (fun n position => evaluate env p ⟨n, position, ns.length⟩) 1 ns
    filterAll env ps kept) := rfl

theorem select_step (axis : Axis) (test : NodeTest) (predicates : List Expr) (n : N) :
    select env ⟨axis, test, predicates⟩ n = (do
      let ns ← (env.tree.along (test.accepts env.tree axis) axis n).mapError .tree
      filterAll env predicates ns) := rfl

@[simp] theorem evaluateSteps_nil : evaluateSteps env [] ns = .ok ns := rfl

theorem evaluateSteps_cons (s : Step Expr) (ss : List (Step Expr)) :
    evaluateSteps env (s :: ss) ns = (do
      let found ← ns.mapM fun n => select env s n
      evaluateSteps env ss (env.tree.inOrder found.flatten)) := rfl

end Equations

end XPath
