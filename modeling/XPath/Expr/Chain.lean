import XPath.Expr

/-!
# Chains of operators

Operands joined by operators are read as one flat chain and then grouped by precedence.  The levels,
tightest first, are order, equality, `and` and `or`; on each level the left operands are grouped
first.

* `Operator`, `Operator.level`, `Operator.ofText?`: the operators and their levels;
* `reduceLevel`: groups the operators of one level;
* `assemble`: groups a whole chain.
-/

namespace XPath

/-- An operator between two operands. -/
inductive Operator
  | comparison (op : Comparison)
  | connective (op : Connective)
  deriving DecidableEq, Inhabited

namespace Operator

def apply : Operator → Expr → Expr → Expr
  | .comparison op, l, r => .compare op l r
  | .connective op, l, r => .connect op l r

def text : Operator → String
  | .comparison op => op.symbol
  | .connective op => op.word

def all : List Operator :=
  Comparison.all.map .comparison ++ [.connective .and, .connective .or]

def ofText? (s : String) : Option Operator :=
  all.find? fun op => op.text == s

/-- How tightly an operator binds. -/
def level : Operator → Nat
  | .connective .or => 0
  | .connective .and => 1
  | .comparison op => if op.isEquality then 2 else 3

end Operator

/-- Groups the operators of one level, from the left; operators of other levels stay in the
chain. -/
def reduceLevel (level : Nat) : Expr → List (Operator × Expr) → Expr × List (Operator × Expr)
  | e, [] => (e, [])
  | e, (op, f) :: rest =>
    if op.level = level then reduceLevel level (op.apply e f) rest
    else
      let (g, rest') := reduceLevel level f rest
      (e, (op, g) :: rest')

/-- Groups the levels below `levels`, tightest first. -/
def reduceLevels : Nat → Expr × List (Operator × Expr) → Expr × List (Operator × Expr)
  | 0, chain => chain
  | level + 1, chain => reduceLevels level (reduceLevel level chain.1 chain.2)

/-- The expression that a chain of operands and operators stands for. -/
def assemble (first : Expr) (rest : List (Operator × Expr)) : Expr :=
  (reduceLevels 4 (first, rest)).1

end XPath
