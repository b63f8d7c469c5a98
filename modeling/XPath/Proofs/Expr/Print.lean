import XPath.Expr.Parser
import XPath.Proofs.Expr.Chain
import XPath.Token.Render

/-!
# Expressions written without abbreviations

Every expression can be written in a form that abbreviates nothing: each step has its axis, and
operators stand between their operands without parentheses, for the language has none.

* `Numerals`: a decimal literal for every number that has one;
* `Expr.print`: the form without abbreviations;
* `chars_assemble`: grouping a chain of operators does not change how it is written.
-/

namespace XPath

/-! ### Numbers -/

/-- A decimal literal for every number that has one. -/
structure Numerals where
  /-- The literal for a number. -/
  literal : Float → String
  /-- Its value is the number. -/
  value : ∀ x cs, Number.ofUnsigned? false cs = some x →
    Number.ofUnsigned? false (literal x).toList = some x

/-- The literals can be chosen, for instance as they were found. -/
theorem Numerals.nonempty : Nonempty Numerals := by
  have hchoice : ∀ x, ∃ s : String, ∀ cs, Number.ofUnsigned? false cs = some x →
      Number.ofUnsigned? false s.toList = some x := by
    intro x
    by_cases h : ∃ cs, Number.ofUnsigned? false cs = some x
    · obtain ⟨cs, hcs⟩ := h
      exact ⟨String.ofList cs, fun _ _ => by rw [String.toList_ofList, hcs]⟩
    · exact ⟨"", fun cs hcs => absurd ⟨cs, hcs⟩ h⟩
  exact ⟨⟨fun x => (hchoice x).choose, fun x => (hchoice x).choose_spec⟩⟩

/-! ### The written form -/

/-- A node type as it is written, with something between its parentheses. -/
def typeChars (name : String) (inside : List Char) : List Char :=
  name.toList ++ '(' :: (inside ++ [')'])

def NodeTest.chars : NodeTest → List Char
  | .any => ['*']
  | .name none localPart => localPart.toList
  | .name (some space) localPart => space.toList ++ ':' :: localPart.toList
  | .text => typeChars "text" []
  | .comment => typeChars "comment" []
  | .node => typeChars "node" []
  | .instruction none => typeChars "processing-instruction" []
  | .instruction (some target) => typeChars "processing-instruction" (quoteLiteral target).toList

/-- The axis and the node test of a step. -/
def headChars (a : Axis) (test : NodeTest) : List Char :=
  a.name.toList ++ ':' :: ':' :: test.chars

def Operator.chars : Operator → List Char
  | .comparison op => op.symbol.toList
  | .connective op => ' ' :: (op.word.toList ++ [' '])

/-- An operator is written as its token is. -/
theorem chars_operator (op : Operator) : op.chars = (spaceOperator op.text).toList := by
  rcases op with op | op <;> cases op <;> decide

variable (n : Numerals)

mutual

/-- An expression without abbreviations. -/
def Expr.chars (e : Expr) : List Char :=
  match e with
  | .literal s => (quoteLiteral s).toList
  | .number x => (n.literal x).toList
  | .variable name => '$' :: name.toList
  | .call name args => name.toList ++ '(' :: (argumentChars true args ++ [')'])
  | .path absolute ss => (if absolute then ['/'] else []) ++ stepsChars false ss
  | .filter primary ps ss => primary.chars ++ (predicatesChars ps ++ stepsChars true ss)
  | .compare op l r => l.chars ++ ((Operator.comparison op).chars ++ r.chars)
  | .connect op l r => l.chars ++ ((Operator.connective op).chars ++ r.chars)

/-- Arguments with commas between them, and one in front of the first unless it is so. -/
def argumentChars (first : Bool) (es : List Expr) : List Char :=
  match es with
  | [] => []
  | e :: es => (if first then [] else [',']) ++ (e.chars ++ argumentChars false es)

def predicatesChars (es : List Expr) : List Char :=
  match es with
  | [] => []
  | e :: es => '[' :: (e.chars ++ ']' :: predicatesChars es)

def stepChars (s : Step Expr) : List Char :=
  match s with
  | ⟨a, test, ps⟩ => headChars a test ++ predicatesChars ps

def stepsChars (leads : Bool) (ss : List (Step Expr)) : List Char :=
  match ss with
  | [] => []
  | s :: ss => (if leads then ['/'] else []) ++ (stepChars s ++ stepsChars true ss)

end

/-- An expression without abbreviations, as a text. -/
def Expr.print (e : Expr) : String :=
  String.ofList (e.chars n)

/-! ### Chains of operators -/

def chainChars (ops : List (Operator × Expr)) : List Char :=
  ops.flatMap fun (op, e) => op.chars ++ e.chars n

@[simp] theorem chainChars_nil : chainChars n [] = [] := rfl

@[simp] theorem chainChars_cons (op : Operator) (e : Expr) (ops : List (Operator × Expr)) :
    chainChars n ((op, e) :: ops) = op.chars ++ (e.chars n ++ chainChars n ops) := by
  simp [chainChars]

/-- An operator is written between its operands. -/
theorem chars_apply (op : Operator) (l r : Expr) :
    (op.apply l r).chars n = l.chars n ++ (op.chars ++ r.chars n) := by
  cases op with
  | comparison op => rw [Operator.apply, Expr.chars]
  | connective op => rw [Operator.apply, Expr.chars]

/-- Grouping a chain of operators does not change how it is written. -/
theorem chars_assemble (first : Expr) (ops : List (Operator × Expr)) :
    (assemble first ops).chars n = first.chars n ++ chainChars n ops :=
  assemble_of_append Operator.chars (chars_apply n) first ops

/-- A primary expression alone is written like one with no predicates and no steps behind it. -/
theorem chars_narrowed (primary : Expr) (ps : List Expr) (ss : List (Step Expr)) :
    (Parser.narrowed primary ps ss).chars n
      = primary.chars n ++ (predicatesChars n ps ++ stepsChars n true ss) := by
  unfold Parser.narrowed
  split
  · rename_i h
    simp only [Bool.and_eq_true, List.isEmpty_iff] at h
    rw [h.1, h.2, predicatesChars, stepsChars, List.append_nil, List.append_nil]
  · rw [Expr.chars]

end XPath
