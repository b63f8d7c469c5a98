import XPath.Proofs.Eval.Agreement

/-!
# Variables without a value

Lenient evaluation takes a variable without a value for the empty text, strict evaluation takes it
for an error.

* `Expr.variableNames`: the variables of an expression;
* `Bindings.fill`: the empty text for variables without a value;
* `variable_fill_agree`, `variable_strict_agree`: a single variable;
* `evaluate_lenient_strict`: lenient evaluation is evaluation with the missing values filled in, and
  strict evaluation is lenient unless it stops at a variable without a value.
-/

namespace XPath

variable {N : Type}

/-- The variables that occur in an expression, at any depth. -/
def Expr.variableNames (e : Expr) : List String :=
  e.parts.filterMap fun
    | .variable name => some name
    | _ => none

theorem Expr.mem_variableNames {e : Expr} {name : String} :
    name ∈ e.variableNames ↔ .variable name ∈ e.parts := by
  rw [variableNames, List.mem_filterMap]
  constructor
  · rintro ⟨f, hf, hname⟩
    split at hname
    · rw [Option.some.injEq] at hname
      exact hname ▸ hf
    · simp at hname
  · exact fun h => ⟨_, h, rfl⟩

/-- Gives the empty text to those of the variables that have no value. -/
def Bindings.fill (b : Bindings N) (names : List String) : Bindings N :=
  ⟨b.entries ++ names.map fun name => (name, .string "")⟩

/-- Filling changes no value, and what it adds is the empty text for the given variables. -/
theorem Bindings.get?_fill (b : Bindings N) (names : List String) (name : String) :
    (b.fill names).get? name
      = (b.get? name).or (if name ∈ names then some (.string "") else none) := by
  have hadded : (names.map fun name => (name, Value.string (N := N) "")).lookup name
      = if name ∈ names then some (.string "") else none := by
    induction names with
    | nil => rfl
    | cons other names ih =>
      rw [List.map_cons, List.lookup_cons, ih]
      by_cases h : name = other
      · simp [h]
      · simp [h, beq_false_of_ne h]
  rw [get?, get?, fill, List.lookup_append, hadded]

/-! ### Variables -/

variable (env : Env N)

/-- With the empty text filled in, a variable has its lenient value, be that strict or not. -/
theorem variable_fill_agree (strict : Bool) {names : List String} {name : String}
    (h : name ∈ names) :
    Agree (fun _ => False) (· = ·) (Env.variable { env with strict := false } name)
      (Env.variable { env with bindings := env.bindings.fill names, strict := strict } name) := by
  have hget := env.bindings.get?_fill names name
  rw [if_pos h] at hget
  simp only [Env.variable, hget]
  cases env.bindings.get? name with
  | none => exact .ok rfl
  | some v => exact .ok rfl

/-- The error is over a variable of the expression that has no value. -/
def Env.Misses (e : Expr) (error : EvalError) : Prop :=
  ∃ name, .variable name ∈ e.parts ∧ env.bindings.get? name = none ∧ error = .unknownVariable name

/-- A variable has its lenient value where that is strict, or none. -/
theorem variable_strict_agree {e : Expr} {name : String} (h : .variable name ∈ e.parts) :
    Agree (env.Misses e) (· = ·) (Env.variable { env with strict := true } name)
      (Env.variable { env with strict := false } name) := by
  unfold Env.variable
  cases hget : env.bindings.get? name with
  | none => exact .excused ⟨name, h, hget, rfl⟩ _
  | some v => exact .ok rfl

/-! ### Expressions -/

variable [DecidableEq N]

/-- Lenient evaluation is evaluation, strict or not, with the empty text for every variable of the
expression that has no value.  Strict evaluation has the outcome of lenient evaluation, or it ends
in the error over some variable of the expression that has no value. -/
theorem evaluate_lenient_strict (e : Expr) (focus : Focus N) :
    (∀ strict, evaluate { env with strict := false } e focus = evaluate
      { env with bindings := env.bindings.fill e.variableNames, strict := strict } e focus) ∧
    (evaluate { env with strict := true } e focus = evaluate { env with strict := false } e focus ∨
      ∃ name, .variable name ∈ e.parts ∧ env.bindings.get? name = none ∧
        evaluate { env with strict := true } e focus = .error (.unknownVariable name)) := by
  constructor
  · intro strict
    have hvars : ∀ name, .variable name ∈ e.parts →
        Agree (fun _ => False) (· = ·) (Env.variable { env with strict := false } name)
          (Env.variable { env with bindings := env.bindings.fill e.variableNames, strict } name) :=
      fun name hname => variable_fill_agree env strict (Expr.mem_variableNames.2 hname)
    exact (couples_of_parts (Value.coupling_eq _) hvars (fun _ _ _ => Env.respects_eq _ _) e
      (fun _ hp => hp) focus).eq
  · have hvars : ∀ name, .variable name ∈ e.parts →
        Agree (env.Misses e) (· = ·) (Env.variable { env with strict := true } name)
          (Env.variable { env with strict := false } name) :=
      fun name hname => variable_strict_agree env hname
    have hagree := couples_of_parts (Value.coupling_eq _) hvars (fun _ _ _ => Env.respects_eq _ _) e
      (fun _ hp => hp) focus
    rcases hagree.eq_or_excused with heq | ⟨error, ⟨name, hname, hget, rfl⟩, heq⟩
    · exact .inl heq
    · exact .inr ⟨name, hname, hget, heq⟩

end XPath
