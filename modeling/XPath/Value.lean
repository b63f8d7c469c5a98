import XPath.Number.Text
import XPath.Tree

/-!
# Values

* `Value`: the four types of values;
* `Value.toBool`, `Value.toNumber`, `Value.toText`: conversions that always succeed;
* `Value.nodes?`: the nodes of a node-set, an error for other values.

A node-set stands for its first node in document order where a single text is wanted.
-/

namespace XPath

/-- The value of an expression over nodes of a type `N`. -/
inductive Value (N : Type)
  /-- A set of nodes, as a list. -/
  | nodes (members : List N)
  /-- A text. -/
  | string (text : String)
  /-- A double. -/
  | number (value : Float)
  /-- A truth value. -/
  | boolean (value : Bool)
  deriving Inhabited

/-- A value has the wrong type: the role that it plays, and the type that it has. -/
structure ConversionError where
  /-- What the value was used as. -/
  role : String
  /-- The type of the value. -/
  found : String
  deriving DecidableEq, Inhabited

def ConversionError.message (e : ConversionError) : String :=
  "Conversion error: " ++ e.role ++ " must be a node-set, found " ++ e.found

def boolNumber (b : Bool) : Float :=
  if b then 1.0 else 0.0

namespace Value

variable {N : Type}

def typeName : Value N → String
  | .nodes _ => "node-set"
  | .string _ => "string"
  | .number _ => "number"
  | .boolean _ => "boolean"

def nodes? (role : String) : Value N → Except ConversionError (List N)
  | .nodes ns => .ok ns
  | v => .error ⟨role, v.typeName⟩

/-- The truth value of a value: whether it is other than empty, zero and not a number. -/
def toBool : Value N → Bool
  | .nodes ns => !ns.isEmpty
  | .string s => s != ""
  | .number x => x != 0.0 && !x.isNaN
  | .boolean b => b

def nodeNumber (T : Tree N) (n : N) : Float :=
  Number.ofText (T.stringValue n)

def toNumber (T : Tree N) : Value N → Float
  | .nodes ns => (T.first? ns).elim Number.nan (nodeNumber T)
  | .string s => Number.ofText s
  | .number x => x
  | .boolean b => boolNumber b

def toText (T : Tree N) : Value N → String
  | .nodes ns => (T.first? ns).elim "" T.stringValue
  | .string s => s
  | .number x => Number.toText x
  | .boolean b => if b then "true" else "false"

end Value
end XPath
