import XPath.Proofs.Calls
import XPath.Tree.Table

/-!
# Calls with missing arguments

A registry may give a defined function any arity.  Where it allows a call with fewer arguments than
the function takes by their places, one that is not there is asked for.  That is no outcome that a
call may have, and no other call leads to it.

* `EvalError.IsReported`: the errors that a call may have;
* `callFunction_eq_missing`: the calls that ask for an argument that is not there;
* `Registry.Covers`: a registry that allows no such call;
* `covers_registerAll`: what may be registered so that it stays one;
* `callFunction_total`: all of this for every registry that can be made.
-/

namespace XPath

variable {N : Type}

/-- Whether an error is reported to the caller: any but that an argument is missing. -/
def EvalError.IsReported : EvalError → Prop
  | .missingArgument _ _ => False
  | _ => True

/-! ### Missing arguments -/

namespace Builtin

variable (f : Builtin) {T : Tree N} {args : List (Value N)} {focus : Focus N}

theorem argument_missing {i : Nat} (h : args.length ≤ i) :
    f.argument args i = .error (.missingArgument f i) := by
  rw [argument, List.getElem?_eq_none h]

theorem nodesArgument_missing (h : args.length ≤ 0) :
    f.nodesArgument args = .error (.missingArgument f 0) := by
  rw [nodesArgument, f.argument_missing h]
  rfl

/-- With too few arguments a function asks for the last of those that it takes by their places. -/
theorem apply_missing (h : args.length < f.indexed) :
    f.apply T args focus = .error (.missingArgument f (f.indexed - 1)) := by
  cases f with
  | lang =>
    show lang.argument args 0 >>= _ = _
    rw [lang.argument_missing (Nat.le_of_lt_succ h)]
    rfl
  | sum =>
    show sum.nodesArgument args >>= _ = _
    rw [sum.nodesArgument_missing (Nat.le_of_lt_succ h)]
    rfl
  | count =>
    show count.nodesArgument args >>= _ = _
    rw [count.nodesArgument_missing (Nat.le_of_lt_succ h)]
    rfl
  | contains =>
    show contains.argument args 1 >>= _ = _
    rw [contains.argument_missing (Nat.le_of_lt_succ h)]
    rfl
  | startsWith =>
    show startsWith.argument args 1 >>= _ = _
    rw [startsWith.argument_missing (Nat.le_of_lt_succ h)]
    rfl
  | _ => exact absurd h (Nat.not_lt_zero _)

theorem apply_eq_missing {g : Builtin} {i : Nat} :
    f.apply T args focus = .error (.missingArgument g i) ↔
      g = f ∧ args.length < f.indexed ∧ i + 1 = f.indexed := by
  by_cases h : args.length < f.indexed
  · rw [f.apply_missing h]
    simp only [Except.error.injEq, EvalError.missingArgument.injEq, h, true_and]
    exact and_congr eq_comm (by omega)
  · have hends : Ends EvalError.IsConversion Value.IsScalar (f.apply T args focus) :=
      f.apply_ends (Nat.le_of_not_lt h)
    refine iff_of_false (fun heq => ?_) fun hmissing => h hmissing.2.1
    rw [heq] at hends
    exact hends

/-- How many arguments the function with the given name, if there is one, takes by their places. -/
def indexedUnder (name : String) : Nat :=
  (ofWord? name).elim 0 indexed

theorem exists_of_lt_indexedUnder {name : String} {count : Nat} (h : count < indexedUnder name) :
    ∃ f, ofWord? name = some f ∧ count < f.indexed := by
  unfold indexedUnder at h
  cases hf : ofWord? name with
  | none =>
    rw [hf] at h
    exact absurd h (Nat.not_lt_zero count)
  | some f =>
    rw [hf] at h
    exact ⟨f, rfl, h⟩

end Builtin

section Calls

variable {T : Tree N} {functions : Registry} {name : String} {args : List (Value N)}
  {focus : Focus N}

/-- A call asks for an argument that is not there exactly if the registry allows it with fewer than
the function takes by their places. -/
theorem callFunction_eq_missing {f : Builtin} {i : Nat} :
    callFunction T functions name args focus = .error (.missingArgument f i) ↔
      functions.check name args.length = .ok () ∧ Builtin.ofWord? name = some f ∧
        args.length < f.indexed ∧ i + 1 = f.indexed := by
  unfold callFunction
  cases functions.check name args.length with
  | error e => simp
  | ok u =>
    cases Builtin.ofWord? name with
    | none => simp
    | some g =>
      simp only [g.apply_eq_missing, Option.some.injEq, true_and, eq_comm (a := f)]
      constructor
      · rintro ⟨rfl, h⟩
        exact ⟨rfl, h⟩
      · rintro ⟨rfl, h⟩
        exact ⟨rfl, h⟩

theorem callFunction_ends_reported
    (h : ∀ f i, callFunction T functions name args focus ≠ .error (.missingArgument f i)) :
    Ends EvalError.IsReported (fun _ => True) (callFunction T functions name args focus) := by
  cases hcall : callFunction T functions name args focus with
  | ok v => trivial
  | error e =>
    cases e with
    | missingArgument f i => exact h f i hcall
    | _ => trivial

end Calls

/-! ### Registries -/

namespace Registry

/-- Adds functions one after another. -/
def registerAll (r : Registry) (entries : List (String × Arity)) : Registry :=
  entries.foldl (fun r e => r.register e.1 e.2) r

/-- The registry allows no call with fewer arguments than the function takes by their places. -/
def Covers (r : Registry) : Prop :=
  ∀ name count, r.check name count = .ok () → Builtin.indexedUnder name ≤ count

theorem covers_empty : Covers .empty := by
  intro name count h
  obtain ⟨arity, hget, -⟩ := check_eq_ok.1 h
  simp at hget

theorem covers_standard : Covers .standard := by
  intro name count h
  obtain ⟨f, hf, haccepts⟩ := faithful_standard name count h
  rw [Builtin.indexedUnder, hf]
  exact f.indexed_le_of_accepts haccepts

/-- One more function, with at least as many arguments as it takes by their places. -/
theorem covers_register {r : Registry} (hr : r.Covers) {name : String} {arity : Arity}
    (h : Builtin.indexedUnder name ≤ arity.least) : (r.register name arity).Covers := by
  intro other count hcheck
  obtain ⟨arity', hget, haccepts⟩ := check_eq_ok.1 hcheck
  rw [get?_register] at hget
  split at hget
  · rename_i hname
    cases hget
    rw [Arity.accepts, Bool.and_eq_true, decide_eq_true_eq] at haccepts
    rw [hname]
    exact Nat.le_trans h haccepts.1
  · exact hr other count (check_eq_ok.2 ⟨arity', hget, haccepts⟩)

theorem covers_registerAll {r : Registry} (hr : r.Covers) (entries : List (String × Arity))
    (h : ∀ e ∈ entries, Builtin.indexedUnder e.1 ≤ e.2.least) : (r.registerAll entries).Covers := by
  induction entries generalizing r with
  | nil => exact hr
  | cons e entries ih =>
    rw [List.forall_mem_cons] at h
    exact ih (covers_register hr h.1) h.2

/-- A registry covers what its functions take exactly if no call of it ends otherwise than in a
value or in an error that is reported. -/
theorem covers_iff {r : Registry} (T : Tree N) (focus : Focus N) :
    r.Covers ↔ ∀ name args,
      Ends EvalError.IsReported (fun _ => True) (callFunction T r name args focus) := by
  constructor
  · intro hr name args
    refine callFunction_ends_reported fun f i hmissing => ?_
    obtain ⟨hcheck, hf, hlt, -⟩ := callFunction_eq_missing.1 hmissing
    have hle := hr name args.length hcheck
    rw [Builtin.indexedUnder, hf] at hle
    exact absurd hlt (Nat.not_lt_of_le hle)
  · intro hends name count hcheck
    refine Nat.le_of_not_lt fun hlt => ?_
    obtain ⟨f, hf, hlt⟩ := Builtin.exists_of_lt_indexedUnder hlt
    -- Any arguments will do, if there are as many as the registry allows.
    obtain ⟨args, rfl⟩ : ∃ args : List (Value N), args.length = count :=
      ⟨List.replicate count (.boolean true), List.length_replicate⟩
    have hmissing :
        callFunction T r name args focus = .error (.missingArgument f (f.indexed - 1)) :=
      callFunction_eq_missing.2 ⟨hcheck, hf, hlt, by omega⟩
    have hend := hends name args
    rw [hmissing] at hend
    exact hend

end Registry

/-- Calls under every registry that is made from the empty or the standard one by registering
functions, defined or not, with any arities.  A call asks for an argument that is not there exactly
if the registry allows it with fewer arguments than the function takes by their places, and then for
the last of them.  No call does if and only if the registry allows no such count, and it allows none
if every function was registered with no fewer arguments than it takes by their places. -/
theorem callFunction_total {start : Registry} (hstart : start = .empty ∨ start = .standard)
    (entries : List (String × Arity)) (T : Tree N) (focus : Focus N) :
    (∀ name args f i,
      callFunction T (start.registerAll entries) name args focus = .error (.missingArgument f i) ↔
        (start.registerAll entries).check name args.length = .ok () ∧
          Builtin.ofWord? name = some f ∧ args.length < f.indexed ∧ i + 1 = f.indexed) ∧
      ((start.registerAll entries).Covers ↔ ∀ name args, Ends EvalError.IsReported (fun _ => True)
        (callFunction T (start.registerAll entries) name args focus)) ∧
      ((∀ e ∈ entries, Builtin.indexedUnder e.1 ≤ e.2.least) →
        (start.registerAll entries).Covers) := by
  refine ⟨fun name args f i => callFunction_eq_missing, Registry.covers_iff T focus, fun h => ?_⟩
  rcases hstart with rfl | rfl
  · exact Registry.covers_registerAll Registry.covers_empty entries h
  · exact Registry.covers_registerAll Registry.covers_standard entries h

/-- A defined function with more arguments than its own, and one that is not defined. -/
theorem callFunction_total_wider :
    ∃ entries, entries = [("lang", ⟨1, none⟩), ("greet", ⟨0, some 3⟩)] ∧
      (Registry.standard.registerAll entries).Covers :=
  ⟨_, rfl, (callFunction_total (.inr rfl) _ Table.sample.tree ⟨0, 1, 1⟩).2.2 (by decide)⟩

/-- A defined function that is registered as one that needs no arguments: the registry allows a call
without any, and the call asks for the first. -/
theorem callFunction_lang_missing :
    ∃ r, r = Registry.standard.registerAll [("lang", ⟨0, some 1⟩)] ∧ r.check "lang" 0 = .ok () ∧
      callFunction Table.sample.tree r "lang" [] ⟨0, 1, 1⟩ = .error (.missingArgument .lang 0) :=
  ⟨_, rfl, by decide, rfl⟩

end XPath
