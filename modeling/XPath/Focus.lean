import XPath.Builtin
import XPath.Tree.Axes
import XPath.Value

/-!
# Where an expression is evaluated

* `Bindings`: the variables that have values;
* `Env`: what stays the same throughout an evaluation;
* `Focus`: the context node with its position among others;
* `EvalError`: why an expression has no value.
-/

namespace XPath

/-! ### Variables -/

/-- The variables that have values, those bound last first. -/
structure Bindings (N : Type) where
  /-- Each variable with its value. -/
  entries : List (String × Value N)
  deriving Inhabited

namespace Bindings

variable {N : Type}

def empty : Bindings N :=
  ⟨[]⟩

def get? (b : Bindings N) (name : String) : Option (Value N) :=
  b.entries.lookup name

def set (b : Bindings N) (name : String) (value : Value N) : Bindings N :=
  ⟨(name, value) :: b.entries⟩

def unset (b : Bindings N) (name : String) : Bindings N :=
  ⟨b.entries.filter fun entry => entry.1 != name⟩

@[simp] theorem get?_empty (name : String) : (empty : Bindings N).get? name = none := rfl

/-- Setting a variable changes the value of that variable only. -/
theorem get?_set (b : Bindings N) (name other : String) (value : Value N) :
    (b.set name value).get? other = if other = name then some value else b.get? other := by
  by_cases h : other = name
  · simp [set, get?, h]
  · simp [set, get?, List.lookup_cons, h, beq_false_of_ne h]

end Bindings

/-! ### Context -/

/-- What stays the same throughout an evaluation. -/
structure Env (N : Type) where
  /-- The tree that paths lead through. -/
  tree : Tree N
  /-- The node at which absolute paths begin. -/
  root : N
  /-- The functions that may be called. -/
  functions : Registry
  /-- The values of variables. -/
  bindings : Bindings N
  /-- Whether a variable without a value is an error; if not, its value is the empty text. -/
  strict : Bool

/-- The context node and its place among the nodes considered with it. -/
structure Focus (N : Type) where
  /-- The context node. -/
  node : N
  /-- Its position, counted from one. -/
  position : Nat
  /-- How many nodes are considered. -/
  size : Nat
  deriving DecidableEq, Inhabited

/-! ### Errors -/

/-- Why an expression has no value. -/
inductive EvalError
  /-- A value has the wrong type. -/
  | conversion (error : ConversionError)
  /-- A variable has no value. -/
  | unknownVariable (name : String)
  /-- A function cannot be called. -/
  | call (error : CallError)
  /-- The links of the tree disagree. -/
  | tree (error : TreeError)
  /-- A function asks for an argument that was not given. -/
  | missingArgument (function : Builtin) (index : Nat)
  deriving DecidableEq, Inhabited

def EvalError.message : EvalError → String
  | .conversion e => e.message
  | .unknownVariable name => "Variable '" ++ name ++ "' not found"
  | .call e => e.message
  | .tree .inconsistent => "A node is not among the children of its parent"
  | .missingArgument f i => "Function '" ++ f.word ++ "' lacks argument " ++ toString (i + 1)

end XPath
