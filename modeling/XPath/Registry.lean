/-!
# Functions that may be called

* `Arity`: how many arguments a function takes;
* `CallError`: why a function cannot be called;
* `Registry`: the functions that may be called, each with its arity;
* `Registry.check`: whether a call is allowed.
-/

namespace XPath

/-! ### Arities -/

/-- How many arguments a function takes. -/
structure Arity where
  /-- The least number of arguments. -/
  least : Nat
  /-- The greatest number of arguments, if there is one. -/
  most : Option Nat
  deriving DecidableEq, Inhabited

def Arity.accepts (a : Arity) (count : Nat) : Bool :=
  a.least ≤ count && a.most.all (count ≤ ·)

def Arity.describe (a : Arity) : String :=
  match a.most with
  | some most =>
    if most = a.least then "Expected " ++ toString most ++ " argument(s)"
    else "Expected " ++ toString a.least ++ " to " ++ toString most ++ " arguments"
  | none => "Expected at least " ++ toString a.least ++ " arguments"

/-! ### Errors -/

/-- Why a function cannot be called. -/
inductive CallError
  /-- No function has the name. -/
  | unknown (function : String)
  /-- The function does not take so many arguments. -/
  | arity (function : String) (arity : Arity)
  /-- The function may be called, but it is not defined. -/
  | undefined (function : String)
  deriving DecidableEq, Inhabited

def CallError.message : CallError → String
  | .unknown f => "Function '" ++ f ++ "' error: Unknown XPath function"
  | .arity f a => "Function '" ++ f ++ "()' error: " ++ a.describe
  | .undefined f => "Function '" ++ f ++ "' error: No implementation for registered function"

/-! ### Registries -/

/-- The functions that may be called, those registered last first. -/
structure Registry where
  /-- Each function with its arity. -/
  entries : List (String × Arity)
  deriving Inhabited

namespace Registry

def empty : Registry :=
  ⟨[]⟩

/-- Adds a function, or gives it another arity. -/
def register (r : Registry) (name : String) (arity : Arity) : Registry :=
  ⟨(name, arity) :: r.entries⟩

def get? (r : Registry) (name : String) : Option Arity :=
  r.entries.lookup name

/-- Whether a function may be called with so many arguments. -/
def check (r : Registry) (name : String) (count : Nat) : Except CallError Unit :=
  match r.get? name with
  | none => .error (.unknown name)
  | some arity => if arity.accepts count then .ok () else .error (.arity name arity)

@[simp] theorem get?_empty (name : String) : empty.get? name = none := rfl

/-- Registering a function changes the arity of that function only. -/
theorem get?_register (r : Registry) (name other : String) (arity : Arity) :
    (r.register name arity).get? other = if other = name then some arity else r.get? other := by
  by_cases h : other = name
  · simp [register, get?, h]
  · simp [register, get?, List.lookup_cons, h, beq_false_of_ne h]

end Registry
end XPath
