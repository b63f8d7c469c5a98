import XPath.Proofs.Eval.Composition
import XPath.Proofs.Expr.Joined

/-!
# Chains of connectives

A chain of operands with the same connective is read as a tree that leans to the left.  Its value is
found by going through the operands from left to right: one that decides ends the search, and so
does one that fails, and nothing is looked for behind either.

* `Connective.deciding`, `Connective.scan`: what decides, and the search;
* `scan_scan`, `scan_values`: searches inside a search, and a search among values;
* `evaluate_connect_scan`, `evaluate_connect_values`: two operands;
* `evaluate_foldl`, `evaluate_foldl_values`: a chain of operands;
* `evaluate_joined`: a text that is such a chain.
-/

namespace XPath

variable {N : Type}

/-! ### Going through outcomes -/

namespace Connective

/-- The truth value that decides, whatever the other operands are. -/
def deciding : Connective → Bool
  | or => true
  | and => false

/-- Goes through outcomes up to the first one that is an error or that decides. -/
def scan (op : Connective) : List (Except EvalError (Value N)) → Except EvalError (Value N)
  | [] => .ok (.boolean !op.deciding)
  | .error e :: _ => .error e
  | .ok v :: rest => if v.toBool = op.deciding then .ok (.boolean op.deciding) else op.scan rest

variable (op : Connective)

theorem scan_of_eq {v : Value N} (hv : v.toBool = op.deciding)
    (rest : List (Except EvalError (Value N))) :
    op.scan (.ok v :: rest) = .ok (.boolean op.deciding) := by
  rw [scan, if_pos hv]

theorem scan_of_ne {v : Value N} (hv : v.toBool ≠ op.deciding)
    (rest : List (Except EvalError (Value N))) : op.scan (.ok v :: rest) = op.scan rest := by
  rw [scan, if_neg hv]

/-- Two values decide together if one of them does. -/
theorem scan_pair (v w : Value N) :
    op.scan [.ok v, .ok w] = .ok (.boolean (op.values v w)) := by
  cases op with
  | or => cases hv : v.toBool <;> cases hw : w.toBool <;> simp [scan, deciding, values, hv, hw]
  | and => cases hv : v.toBool <;> cases hw : w.toBool <;> simp [scan, deciding, values, hv, hw]

theorem scan_scan_one (r : Except EvalError (Value N)) (rest : List (Except EvalError (Value N))) :
    op.scan (op.scan [r] :: rest) = op.scan (r :: rest) := by
  cases r with
  | error e => rfl
  | ok v =>
    by_cases hv : v.toBool = op.deciding
    · rw [scan_of_eq op hv, scan_of_eq op hv, scan_of_eq op rfl]
    · have hcontrary : (Value.boolean !op.deciding : Value N).toBool ≠ op.deciding :=
        by simp [Value.toBool]
      rw [scan_of_ne op hv, scan_of_ne op hv, scan, scan_of_ne op hcontrary]

/-- A search through two outcomes comes to what they come to in a longer one. -/
theorem scan_scan (r s : Except EvalError (Value N)) (rest : List (Except EvalError (Value N))) :
    op.scan (op.scan [r, s] :: rest) = op.scan (r :: s :: rest) := by
  cases r with
  | error e => rfl
  | ok v =>
    by_cases hv : v.toBool = op.deciding
    · rw [scan_of_eq op hv, scan_of_eq op hv, scan_of_eq op rfl]
    · rw [scan_of_ne op hv, scan_of_ne op hv, scan_scan_one]

/-- A search among values combines them from the left. -/
theorem scan_values (vs : List (Value N)) : ∀ v w, op.scan ((v :: w :: vs).map .ok)
    = .ok ((w :: vs).foldl (fun u x => .boolean (op.values u x)) v) := by
  induction vs with
  | nil => exact fun v w => op.scan_pair v w
  | cons x vs ih =>
    intro v w
    rw [List.map_cons, List.map_cons, ← scan_scan, scan_pair, List.foldl_cons]
    exact ih _ x

end Connective

/-! ### Evaluation -/

section Evaluation

variable [DecidableEq N] (env : Env N) (focus : Focus N) (op : Connective)

/-- A connective goes through its two operands. -/
theorem evaluate_connect_scan (l r : Expr) : evaluate env (.connect op l r) focus
    = op.scan [evaluate env l focus, evaluate env r focus] := by
  have hdecides : ∀ b, op.decides b = (b == op.deciding) := by
    cases op <;> decide
  rw [evaluate_connect]
  cases evaluate env l focus with
  | error e => rfl
  | ok v =>
    by_cases hv : v.toBool = op.deciding
    · rw [op.scan_of_eq hv]
      simp [hdecides, hv, bind, Except.bind, pure, Except.pure]
    · cases evaluate env r focus with
      | error e =>
        rw [op.scan_of_ne hv]
        simp [hdecides, hv, bind, Except.bind, Connective.scan]
      | ok w =>
        rw [op.scan_pair]
        simp [hdecides, hv, bind, Except.bind, pure, Except.pure]

/-- Operands that have values are combined. -/
theorem evaluate_connect_values {env focus} {l r : Expr} {v w : Value N}
    (hl : evaluate env l focus = .ok v) (hr : evaluate env r focus = .ok w) :
    evaluate env (.connect op l r) focus = .ok (.boolean (op.values v w)) := by
  rw [evaluate_connect_scan, hl, hr, Connective.scan_pair]

/-- A chain of operands that leans to the left goes through all of them. -/
theorem scan_foldl (es : List Expr) : ∀ e,
    op.scan [evaluate env (es.foldl (.connect op) e) focus]
      = op.scan ((e :: es).map fun e => evaluate env e focus) := by
  induction es with
  | nil => exact fun _ => rfl
  | cons f es ih =>
    intro e
    rw [List.foldl_cons, ih, List.map_cons, evaluate_connect_scan, Connective.scan_scan]
    rfl

/-- The value of a chain is what a search through the values of its operands comes to. -/
theorem evaluate_foldl {es : List Expr} (hes : es ≠ []) (e : Expr) :
    evaluate env (es.foldl (.connect op) e) focus
      = op.scan ((e :: es).map fun e => evaluate env e focus) := by
  obtain rfl | ⟨init, f, rfl⟩ := List.eq_nil_or_concat es
  · exact absurd rfl hes
  · rw [← scan_foldl, List.concat_eq_append, List.foldl_append, List.foldl_cons, List.foldl_nil,
      evaluate_connect_scan, Connective.scan_scan]

/-- A chain whose operands all have values combines these from the left. -/
theorem evaluate_foldl_values {e : Expr} {es : List Expr} (hes : es ≠ []) {v : Value N}
    {vs : List (Value N)} (h : (e :: es).map (fun e => evaluate env e focus) = (v :: vs).map .ok) :
    evaluate env (es.foldl (.connect op) e) focus
      = .ok (vs.foldl (fun u x => .boolean (op.values u x)) v) := by
  rw [evaluate_foldl env focus op hes, h]
  cases vs with
  | nil =>
    have hlength := congrArg List.length h
    simp only [List.map_cons, List.length_cons, List.length_map, List.length_nil,
      Nat.add_right_cancel_iff, List.length_eq_zero_iff] at hlength
    exact absurd hlength hes
  | cons w vs => exact op.scan_values vs v w

/-- Let a text be two operands or more with the same connective between any two of them, each
binding more tightly.  Its value is the first error among the values of the operands, if no operand
in front of it decides; else the truth value that decides, if some operand does; and else the
contrary one.  If all operands have values, it is what combining them from the left yields.  And
every text that is read with a connective at the top is such a chain. -/
theorem evaluate_joined {functions : Registry} {limit : Nat} {s : String} {ts : List Token}
    (hts : tokenize limit s = .ok ts) :
    (∀ first rest, Parser.Joined functions op first rest ts → rest ≠ [] →
      ∃ e, parse functions limit s = .ok e ∧
        evaluate env e focus = op.scan ((first :: rest).map fun f => evaluate env f focus) ∧
        ∀ v vs, (first :: rest).map (fun f => evaluate env f focus) = (v :: vs).map .ok →
          evaluate env e focus = .ok (vs.foldl (fun u x => .boolean (op.values u x)) v)) ∧
    ∀ l r, parse functions limit s = .ok (.connect op l r) →
      ∃ first rest, Parser.Joined functions op first rest ts ∧ rest ≠ [] := by
  have hparse : parse functions limit s = parseTokens functions ts := by
    rw [parse, hts]
  rw [hparse]
  constructor
  · intro first rest hjoined hrest
    exact ⟨_, hjoined.parseTokens_eq.1, evaluate_foldl env focus op hrest first,
      fun v vs => evaluate_foldl_values env focus op hrest⟩
  · intro l r h
    obtain ⟨first, rest, hjoined, heq⟩ := Parser.joined_of_parseTokens h (Nat.le_refl _)
    refine ⟨first, rest, hjoined, ?_⟩
    -- a single operand binds more tightly than the connective at the top
    rintro rfl
    have heq : .connect op l r = first := heq
    have htight := hjoined.tight rfl
    rw [← heq] at htight
    exact Nat.lt_irrefl _ htight

end Evaluation

/-- The second operand decides, and the variable behind it is not looked for. -/
theorem evaluate_joined_decided : ∃ ts first rest e,
    tokenize 1 "'' or 'x' or $missing" = .ok ts ∧ Parser.Joined .standard .or first rest ts ∧
    rest.length = 2 ∧ parse .standard 1 "'' or 'x' or $missing" = .ok e ∧
    evaluate .sample e ⟨0, 1, 1⟩ = .ok (.boolean true) ∧
    evaluate .sample (.variable "missing") ⟨0, 1, 1⟩ = .error (.unknownVariable "missing") := by
  have hts : tokenize 1 "'' or 'x' or $missing" = .ok [⟨.string, "", 1⟩, ⟨.operator, "or", 3⟩,
      ⟨.string, "x", 7⟩, ⟨.operator, "or", 10⟩, ⟨.variable, "missing", 14⟩,
      ⟨.pathEnd, "", 21⟩] := by
    decide +kernel
  have hliteral : ∀ text offset,
      parseTokens .standard [⟨.string, text, offset⟩] = .ok (.literal text) :=
    fun text offset => Parser.parseTokens_of_operand (.string (t := ⟨.string, text, offset⟩) rfl)
  have hmissing : parseTokens .standard [⟨.variable, "missing", 14⟩, ⟨.pathEnd, "", 21⟩]
      = .ok (.variable "missing") :=
    Parser.parseTokens_of_operand (.variableName (t := ⟨.variable, "missing", 14⟩) rfl
      (.noPredicate (by simp [Parser.NotNext])) (.noStep rfl))
  have hone : Parser.Joined .standard .or (.literal "") [] [⟨.string, "", 1⟩] :=
    .one (hliteral "" 1) (by decide)
  have htwo := hone.more (t := ⟨.operator, "or", 3⟩) rfl rfl (hliteral "x" 7) (by decide)
  have hthree := htwo.more (t := ⟨.operator, "or", 10⟩) rfl rfl hmissing (by decide)
  obtain ⟨e, he, hvalue, -⟩ :=
    (evaluate_joined Env.sample ⟨0, 1, 1⟩ .or hts).1 _ _ hthree (List.cons_ne_nil _ _)
  exact ⟨_, _, _, e, hts, hthree, rfl, he, hvalue, rfl⟩

end XPath
