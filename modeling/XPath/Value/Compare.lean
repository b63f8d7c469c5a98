import XPath.Expr
import XPath.Value

/-!
# Comparing values

Two values that are not node-sets are compared by truth value, number or text for equality, and by
number for order.  A node-set compares as some node of it does, except that against a truth value it
is compared as a whole.

* `Comparison.numbers`, `Comparison.texts`: numbers and texts;
* `Comparison.values`: any two values;
* `Connective.values`: the logical operators.
-/

namespace XPath

namespace Comparison

/-- Compares numbers; what is not a number differs from everything and has no order. -/
def numbers (op : Comparison) (l r : Float) : Bool :=
  match op with
  | .eq => l == r
  | .ne => l != r
  | .lt => l < r
  | .le => l ≤ r
  | .gt => r < l
  | .ge => r ≤ l

/-- Compares texts: as they are for equality, as numbers for order. -/
def texts (op : Comparison) (l r : String) : Bool :=
  match op with
  | .eq => l == r
  | .ne => l != r
  | op => op.numbers (Number.ofText l) (Number.ofText r)

variable {N : Type} (T : Tree N)

/-- Whether two values that are not node-sets are equal: as truth values if one of them is one, else
as numbers if one of them is one, else as texts. -/
def equalScalars (l r : Value N) : Bool :=
  match l, r with
  | .boolean _, _ | _, .boolean _ => l.toBool == r.toBool
  | .number _, _ | _, .number _ => l.toNumber T == r.toNumber T
  | _, _ => l.toText T == r.toText T

/-- Compares two values that are not node-sets. -/
def scalars (op : Comparison) (l r : Value N) : Bool :=
  match op with
  | .eq => equalScalars T l r
  | .ne => !equalScalars T l r
  | op => op.numbers (l.toNumber T) (r.toNumber T)

/-- Compares a node-set with a value that is none. -/
def nodesWith (op : Comparison) (ns : List N) : Value N → Bool
  | .boolean b => op.numbers (boolNumber !ns.isEmpty) (boolNumber b)
  | .number x => ns.any fun n => op.numbers (Value.nodeNumber T n) x
  | .string s => ns.any fun n => op.texts (T.stringValue n) s
  | .nodes _ => false

def values (op : Comparison) (l r : Value N) : Bool :=
  match l, r with
  | .nodes ls, .nodes rs =>
    ls.any fun n => rs.any fun m => op.texts (T.stringValue n) (T.stringValue m)
  | .nodes ls, r => op.nodesWith T ls r
  | l, .nodes rs => op.mirror.nodesWith T rs l
  | l, r => op.scalars T l r

end Comparison

def Connective.values {N : Type} (op : Connective) (l r : Value N) : Bool :=
  match op with
  | .or => l.toBool || r.toBool
  | .and => l.toBool && r.toBool

end XPath
