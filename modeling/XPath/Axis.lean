/-!
# Axes

An axis is a direction in which a location step looks from its context node.

* `Axis`: the thirteen axes;
* `Axis.name`, `Axis.ofName?`: their names, both ways;
* `Axis.isReverse`: the axes that run against document order.
-/

namespace XPath

/-- The direction of a location step. -/
inductive Axis
  | ancestor
  | ancestorOrSelf
  | attribute
  | child
  | descendant
  | descendantOrSelf
  | following
  | followingSibling
  | namespaceNode
  | parent
  | preceding
  | precedingSibling
  | self
  deriving DecidableEq, Inhabited

namespace Axis

/-- Every axis, in alphabetical order. -/
def all : List Axis :=
  [.ancestor, .ancestorOrSelf, .attribute, .child, .descendant, .descendantOrSelf, .following,
    .followingSibling, .namespaceNode, .parent, .preceding, .precedingSibling, .self]

def name : Axis → String
  | .ancestor => "ancestor"
  | .ancestorOrSelf => "ancestor-or-self"
  | .attribute => "attribute"
  | .child => "child"
  | .descendant => "descendant"
  | .descendantOrSelf => "descendant-or-self"
  | .following => "following"
  | .followingSibling => "following-sibling"
  | .namespaceNode => "namespace"
  | .parent => "parent"
  | .preceding => "preceding"
  | .precedingSibling => "preceding-sibling"
  | .self => "self"

def ofName? (s : String) : Option Axis :=
  all.find? fun a => a.name == s

/-- Whether nodes on the axis come nearest first, against document order. -/
def isReverse : Axis → Bool
  | .ancestor | .ancestorOrSelf | .preceding | .precedingSibling => true
  | _ => false

theorem mem_all (a : Axis) : a ∈ all := by
  cases a <;> decide

/-- An axis is found under its own name. -/
theorem ofName?_name (a : Axis) : ofName? a.name = some a := by
  cases a <;> decide

end Axis
end XPath
