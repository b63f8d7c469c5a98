import XPath.Axis

/-!
# Expressions

* `NodeTest`, `Step`: what a location step selects;
* `Comparison`, `Connective`: the operators;
* `Expr`: expressions.

Abbreviated steps are not represented: every step has an axis, and two slashes stand for a step of
their own (`Step.anyBelow`).
-/

namespace XPath

/-- Which nodes of an axis a step accepts. -/
inductive NodeTest
  /-- Every node of the axis's principal kind. -/
  | any
  /-- The nodes of the principal kind with a local part and, if given, a prefix. -/
  | name (space : Option String) (localPart : String)
  /-- Text nodes. -/
  | text
  /-- Comments. -/
  | comment
  /-- Processing instructions, with the target if one is given. -/
  | instruction (target : Option String)
  /-- Every node. -/
  | node
  deriving DecidableEq, Inhabited

/-- A location step, with predicates of a type `P`. -/
structure Step (P : Type) where
  /-- The direction of the step. -/
  axis : Axis
  /-- The nodes that it accepts there. -/
  test : NodeTest
  /-- The conditions that they must meet, one after the other. -/
  predicates : List P
  deriving Inhabited

/-- The step that two slashes stand for: the context node and all its descendants. -/
def Step.anyBelow {P : Type} : Step P :=
  ⟨.descendantOrSelf, .node, []⟩

inductive Comparison
  | eq
  | ne
  | lt
  | le
  | gt
  | ge
  deriving DecidableEq, Inhabited

namespace Comparison

def symbol : Comparison → String
  | eq => "="
  | ne => "!="
  | lt => "<"
  | le => "<="
  | gt => ">"
  | ge => ">="

def all : List Comparison :=
  [eq, ne, lt, le, gt, ge]

/-- Whether the comparison asks for equality or its contrary, not for order. -/
def isEquality : Comparison → Bool
  | eq | ne => true
  | _ => false

/-- The comparison that holds with the operands exchanged. -/
def mirror : Comparison → Comparison
  | eq => eq
  | ne => ne
  | lt => gt
  | le => ge
  | gt => lt
  | ge => le

@[simp] theorem mirror_mirror (op : Comparison) : op.mirror.mirror = op := by
  cases op <;> rfl

end Comparison

/-- The logical operators. -/
inductive Connective
  | or
  | and
  deriving DecidableEq, Inhabited

def Connective.word : Connective → String
  | .or => "or"
  | .and => "and"

/-- An expression. -/
inductive Expr
  /-- A string. -/
  | literal (text : String)
  /-- A number. -/
  | number (value : Float)
  /-- A reference to a variable. -/
  | variable (name : String)
  /-- A call of a function. -/
  | call (name : String) (args : List Expr)
  /-- A path from the root or from the context node. -/
  | path (absolute : Bool) (steps : List (Step Expr))
  /-- A node-set narrowed by predicates and followed by steps. -/
  | filter (primary : Expr) (predicates : List Expr) (steps : List (Step Expr))
  /-- A comparison of two values. -/
  | compare (op : Comparison) (left right : Expr)
  /-- A logical operation on two values. -/
  | connect (op : Connective) (left right : Expr)
  deriving Inhabited

end XPath
