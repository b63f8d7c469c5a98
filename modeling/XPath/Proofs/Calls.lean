import XPath.Builtin.Apply
import XPath.Proofs.Outcome

/-!
# Calls that fail only over types

A function looks its arguments up without asking how many there are.  With as many as it takes by
their places it finds them all, and within its own arity it has so many: a call that such a registry
allows has a value or an argument of a wrong type.

* `Value.IsScalar`, `EvalError.IsConversion`: values that are no node-sets, errors over types;
* `Builtin.indexed`: the arguments that a function takes by their places;
* `Builtin.apply_ends`: a function that has them;
* `Registry.Faithful`: a registry that allows no more than the functions take;
* `callFunction_ends`: a call that such a registry allows.
-/

namespace XPath

variable {N : Type}

/-- Whether a value is no node-set. -/
def Value.IsScalar : Value N → Prop
  | .nodes _ => False
  | _ => True

/-- Whether an error is over a type. -/
def EvalError.IsConversion : EvalError → Prop
  | .conversion _ => True
  | _ => False

/-! ### Arguments -/

theorem Value.nodes?_ends (role : String) (v : Value N) :
    Ends EvalError.IsConversion (fun ns => v = .nodes ns)
      ((v.nodes? role).mapError EvalError.conversion) := by
  cases v with
  | nodes ns => rfl
  | string s => trivial
  | number x => trivial
  | boolean b => trivial

namespace Builtin

variable (f : Builtin) {T : Tree N} {args : List (Value N)} {focus : Focus N}

theorem argument_ends {i : Nat} (h : i < args.length) :
    Ends EvalError.IsConversion (fun _ => True) (f.argument args i) := by
  rw [argument, List.getElem?_eq_getElem h]
  trivial

theorem nodesArgument_ends (h : 0 < args.length) :
    Ends EvalError.IsConversion (fun _ => True) (f.nodesArgument args) := by
  refine (f.argument_ends h).bind ?_
  intro v _
  exact (v.nodes?_ends f.argumentRole).mono (fun _ he => he) fun _ _ => trivial

theorem subjectName_ends :
    Ends EvalError.IsConversion (fun _ => True) (f.subjectName T args focus) := by
  unfold subjectName
  cases args with
  | nil => trivial
  | cons v vs =>
    refine Ends.bind (f.nodesArgument_ends (Nat.zero_lt_succ _)) ?_
    intro ns _
    trivial

/-! ### Arguments by their places -/

/-- How many arguments a function takes by their places, be they there or not.  Every other function
asks first, or takes all that there are. -/
def indexed : Builtin → Nat
  | lang | sum | count => 1
  | contains | startsWith => 2
  | _ => 0

/-- Within its arity a function has the arguments that it takes by their places. -/
theorem indexed_le_of_accepts {count : Nat} (h : f.arity.accepts count) : f.indexed ≤ count := by
  rw [Arity.accepts, Bool.and_eq_true, decide_eq_true_eq] at h
  refine Nat.le_trans ?_ h.1
  cases f <;> decide

/-- With the arguments that it takes by their places a function has a value that is no node-set, or
an argument of a wrong type. -/
theorem apply_ends (hleast : f.indexed ≤ args.length) :
    Ends EvalError.IsConversion Value.IsScalar (f.apply T args focus) := by
  cases f with
  | lang =>
    refine (argument_ends lang hleast).bind ?_
    intro range _
    trivial
  | sum =>
    refine (nodesArgument_ends sum hleast).bind ?_
    intro ns _
    trivial
  | count =>
    refine (nodesArgument_ends count hleast).bind ?_
    intro ns _
    trivial
  | localName =>
    refine (subjectName_ends localName).bind ?_
    intro q _
    trivial
  | name =>
    refine (subjectName_ends name).bind ?_
    intro q _
    trivial
  | contains =>
    refine (argument_ends contains hleast).bind ?_
    intro needle _
    refine (argument_ends contains (Nat.lt_of_succ_lt hleast)).bind ?_
    intro s _
    trivial
  | startsWith =>
    refine (argument_ends startsWith hleast).bind ?_
    intro start _
    refine (argument_ends startsWith (Nat.lt_of_succ_lt hleast)).bind ?_
    intro s _
    trivial
  -- the other functions take no argument by its place
  | _ => trivial

end Builtin

/-! ### Registries -/

namespace Registry

/-- The registry allows calls of defined functions only, and within their arities. -/
def Faithful (r : Registry) : Prop :=
  ∀ name count, r.check name count = .ok () →
    ∃ f, Builtin.ofWord? name = some f ∧ f.arity.accepts count

/-- A call is allowed if the registry has the function with an arity that accepts the count. -/
theorem check_eq_ok {r : Registry} {name : String} {count : Nat} :
    r.check name count = .ok () ↔ ∃ arity, r.get? name = some arity ∧ arity.accepts count := by
  unfold check
  cases r.get? name with
  | none => simp
  | some arity => simp

theorem faithful_standard : Faithful .standard := by
  intro name count h
  obtain ⟨arity, hget, haccepts⟩ := check_eq_ok.1 h
  obtain ⟨before, after, hsplit, -⟩ := List.lookup_eq_some_iff.1 hget
  have hmem : (name, arity) ∈ Registry.standard.entries := by
    rw [hsplit]
    simp
  obtain ⟨f, -, hf⟩ := List.mem_map.1 hmem
  rw [Prod.mk.injEq] at hf
  exact ⟨f, hf.1 ▸ f.ofWord?_word, hf.2 ▸ haccepts⟩

end Registry

/-- A call that a faithful registry allows fails over a type or not at all. -/
theorem callFunction_ends {T : Tree N} {functions : Registry} (hfaithful : functions.Faithful)
    {name : String} {args : List (Value N)} (h : functions.check name args.length = .ok ())
    (focus : Focus N) : Ends EvalError.IsConversion Value.IsScalar
      (callFunction T functions name args focus) := by
  obtain ⟨f, hf, haccepts⟩ := hfaithful name args.length h
  rw [callFunction, h, hf]
  exact f.apply_ends (f.indexed_le_of_accepts haccepts)

end XPath
