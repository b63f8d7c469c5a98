import XPath.Expr.Chain
import XPath.Registry
import XPath.Number.Text
import XPath.Token.Lexer

/-!
# Expressions from tokens

The reader of expressions takes a list of tokens and returns an expression together with the tokens
that it left, which are fewer.

* `GrammarError`, `ParseError`: why a text is no expression;
* `Parsed`: a result, the tokens left and a bound on their number;
* `Parser.expression`: reads an expression;
* `parseTokens`: reads all tokens as one expression;
* `parse`: reads a text.
-/

namespace XPath

/-! ### Errors -/

/-- Why tokens do not make an expression. -/
inductive GrammarError
  /-- There are no tokens. -/
  | empty
  /-- A token is missing at the end. -/
  | unexpectedEnd
  /-- The token cannot stand at its place. -/
  | unexpected (token : Token)
  /-- The text is no number. -/
  | invalidNumber (text : String)
  /-- The name is no axis. -/
  | unknownAxis (name : String)
  /-- An abbreviated step stands behind an axis. -/
  | axisBeforeAbbreviation (text : String)
  /-- The name is no node type. -/
  | unknownNodeType (name : String)
  deriving DecidableEq, Inhabited

def GrammarError.message : GrammarError → String
  | .empty => "empty expression"
  | .unexpectedEnd => "unexpected end of expression"
  | .unexpected t =>
    "unexpected " ++ t.kind.label ++ " '" ++ t.text ++ "' at offset " ++ toString t.offset
  | .invalidNumber s => "invalid number '" ++ s ++ "'"
  | .unknownAxis s => "unknown axis '" ++ s ++ "'"
  | .axisBeforeAbbreviation s => "abbreviated step '" ++ s ++ "' cannot take an axis"
  | .unknownNodeType s => "unknown node type '" ++ s ++ "'"

/-- Why a text is no expression. -/
inductive ParseError
  /-- The text cannot be broken into tokens. -/
  | lexical (error : LexError)
  /-- The tokens do not make an expression. -/
  | grammar (error : GrammarError)
  /-- A function is called that may not be called so. -/
  | call (error : CallError)
  deriving DecidableEq, Inhabited

def ParseError.message (text : String) : ParseError → String
  | .lexical e => e.message
  | .grammar e => "XPath parse error in '" ++ text ++ "': " ++ e.message
  | .call e => e.message

namespace Parser

/-! ### Single tokens -/

/-- A result and the tokens left, fewer than `bound`. -/
structure Parsed (α : Type) (bound : Nat) where
  /-- What was read. -/
  value : α
  /-- The tokens that are left. -/
  rest : List Token
  /-- There are fewer than `bound` of them. -/
  shorter : rest.length < bound

/-- The outcome of reading an `α` from tokens, of which fewer than `bound` are left. -/
abbrev Reading (α : Type) (bound : Nat) : Type :=
  Except ParseError (Parsed α bound)

def Parsed.weaken {α : Type} {a b : Nat} (p : Parsed α a) (h : a ≤ b) : Parsed α b :=
  ⟨p.value, p.rest, Nat.lt_of_lt_of_le p.shorter h⟩

def unexpected {α : Type} (t : Token) : Except ParseError α :=
  .error (.grammar (.unexpected t))

def unexpectedEnd {α : Type} : Except ParseError α :=
  .error (.grammar .unexpectedEnd)

def expect (kind : Token.Kind) : (ts : List Token) → Reading Token ts.length
  | [] => unexpectedEnd
  | t :: ts => if t.kind = kind then .ok ⟨t, ts, Nat.lt_succ_self _⟩ else unexpected t

def operator? (t : Token) : Option Operator :=
  if t.kind = .operator then Operator.ofText? t.text else none

def nodeType (name : String) (ts : List Token) : Reading NodeTest (ts.length + 1) :=
  if name = "text" then .ok ⟨.text, ts, Nat.lt_succ_self _⟩
  else if name = "node" then .ok ⟨.node, ts, Nat.lt_succ_self _⟩
  else if name = "comment" then .ok ⟨.comment, ts, Nat.lt_succ_self _⟩
  else if name = "processing-instruction" then
    match ts with
    | [] => .ok ⟨.instruction none, [], Nat.lt_succ_self _⟩
    | t :: rest =>
      if t.kind = .target then
        .ok ⟨.instruction (some t.text), rest, Nat.lt_succ_of_lt (Nat.lt_succ_self _)⟩
      else .ok ⟨.instruction none, t :: rest, Nat.lt_succ_self _⟩
  else .error (.grammar (.unknownNodeType name))

def axis : (ts : List Token) → Reading (Option Axis) (ts.length + 1)
  | [] => .ok ⟨none, [], Nat.lt_succ_self _⟩
  | t :: ts =>
    if t.kind = .axis then
      match Axis.ofName? t.text with
      | some a => .ok ⟨some a, ts, Nat.lt_succ_of_lt (Nat.lt_succ_self _)⟩
      | none => .error (.grammar (.unknownAxis t.text))
    else if t.kind = .attributeSign then
      .ok ⟨some .attribute, ts, Nat.lt_succ_of_lt (Nat.lt_succ_self _)⟩
    else .ok ⟨none, t :: ts, Nat.lt_succ_self _⟩

def namedStep (explicit : Option Axis) (text : String) : Except ParseError (Axis × NodeTest) :=
  if text = "." ∨ text = ".." then
    if explicit.isSome then .error (.grammar (.axisBeforeAbbreviation text))
    else .ok (if text = "." then .self else .parent, .node)
  else
    .ok (explicit.getD .child, if text = "*" then .any else .name none text)

/-- Reads the node test of a step behind the given axis, and settles the axis. -/
def nodeTest (explicit : Option Axis) : (ts : List Token) → Reading (Axis × NodeTest) ts.length
  | [] => unexpectedEnd
  | t :: ts =>
    match t.kind with
    | .name => do
      let head ← namedStep explicit t.text
      return ⟨head, ts, Nat.lt_succ_self _⟩
    | .nameSpace => do
      let name ← expect .name ts
      return ⟨(explicit.getD .child, .name (some t.text) name.value.text), name.rest,
        Nat.lt_succ_of_lt name.shorter⟩
    | .nodeType => do
      let test ← nodeType t.text ts
      return ⟨(explicit.getD .child, test.value), test.rest, test.shorter⟩
    | _ => unexpected t

def stepHead (ts : List Token) : Reading (Axis × NodeTest) ts.length := do
  let explicit ← axis ts
  let head ← nodeTest explicit.value explicit.rest
  return head.weaken (Nat.le_of_lt_succ explicit.shorter)

/-! ### Expressions -/

/-- A primary expression narrowed by predicates and followed by steps, or just itself. -/
def narrowed (primary : Expr) (predicates : List Expr) (steps : List (Step Expr)) : Expr :=
  if predicates.isEmpty && steps.isEmpty then primary else .filter primary predicates steps

mutual

def expression (functions : Registry) (ts : List Token) : Reading Expr ts.length := do
  let ⟨first, ts₁, h₁⟩ ← operand functions ts
  let ⟨chain, ts₂, h₂⟩ ← operators functions ts₁
  return ⟨assemble first chain, ts₂, by omega⟩
termination_by 4 * ts.length + 3

def operators (functions : Registry) (ts : List Token) :
    Reading (List (Operator × Expr)) (ts.length + 1) :=
  match ts with
  | [] => return ⟨[], [], Nat.lt_succ_self _⟩
  | t :: ts =>
    match operator? t with
    | none => return ⟨[], t :: ts, Nat.lt_succ_self _⟩
    | some op => do
      let ⟨e, ts₁, h₁⟩ ← operand functions ts
      let ⟨chain, ts₂, h₂⟩ ← operators functions ts₁
      return ⟨(op, e) :: chain, ts₂, by simp only [List.length_cons]; omega⟩
termination_by 4 * ts.length + 0

/-- Reads an operand: a literal, a number, or a path of some kind. -/
def operand (functions : Registry) (ts : List Token) : Reading Expr ts.length :=
  match ts with
  | [] => unexpectedEnd
  | t :: ts =>
    match t.kind with
    | .string => return ⟨.literal t.text, ts, Nat.lt_succ_self _⟩
    | .number =>
      match Number.ofUnsigned? false t.text.toList with
      | some x => return ⟨.number x, ts, Nat.lt_succ_self _⟩
      | none => .error (.grammar (.invalidNumber t.text))
    | .variable => do
      let ⟨e, ts₁, h₁⟩ ← filtered functions (.variable t.text) ts
      return ⟨e, ts₁, by simp only [List.length_cons]; omega⟩
    | .call => do
      let ⟨e, ts₁, h₁⟩ ← call functions t.text ts
      let ⟨e, ts₂, h₂⟩ ← filtered functions e ts₁
      return ⟨e, ts₂, by simp only [List.length_cons]; omega⟩
    -- a prefix belongs to a function or to the first step of a path
    | .nameSpace =>
      match ts with
      | [] => path functions [t]
      | u :: ts =>
        if u.kind = .call then do
          let ⟨e, ts₁, h₁⟩ ← call functions (t.text ++ ":" ++ u.text) ts
          let ⟨e, ts₂, h₂⟩ ← filtered functions e ts₁
          return ⟨e, ts₂, by simp only [List.length_cons]; omega⟩
        else path functions (t :: u :: ts)
    | .operator | .argument | .callEnd | .predicateStart | .predicateEnd | .pathEnd | .target =>
      unexpected t
    | _ => path functions (t :: ts)
termination_by 4 * ts.length + 2

def call (functions : Registry) (name : String) (ts : List Token) : Reading Expr ts.length := do
  let ⟨args, ts₁, h₁⟩ ← arguments functions ts
  match functions.check name args.length with
  | .ok () => return ⟨.call name args, ts₁, h₁⟩
  | .error e => .error (.call e)
termination_by 4 * ts.length + 1

def arguments (functions : Registry) (ts : List Token) : Reading (List Expr) ts.length :=
  match ts with
  | [] => unexpectedEnd
  | t :: ts =>
    match t.kind with
    | .callEnd => return ⟨[], ts, Nat.lt_succ_self _⟩
    | .argument => do
      let ⟨e, ts₁, h₁⟩ ← expression functions ts
      let ⟨es, ts₂, h₂⟩ ← arguments functions ts₁
      return ⟨e :: es, ts₂, by simp only [List.length_cons]; omega⟩
    | _ => unexpected t
termination_by 4 * ts.length + 0

def filtered (functions : Registry) (primary : Expr) (ts : List Token) :
    Reading Expr ts.length := do
  let ⟨conditions, ts₁, h₁⟩ ← predicates functions ts
  let ⟨more, ts₂, h₂⟩ ← steps functions ts₁
  return ⟨narrowed primary conditions more, ts₂, by omega⟩
termination_by 4 * ts.length + 1

/-- Reads a path that does not begin with a variable or a call. -/
def path (functions : Registry) (ts : List Token) : Reading Expr ts.length :=
  match ts with
  | [] => unexpectedEnd
  | t :: ts =>
    match t.kind with
    | .rootSlash =>
      match ts with
      | [] => unexpectedEnd
      | u :: us =>
        if u.kind = .pathEnd then return ⟨.path true [], us, Nat.lt_succ_of_lt (Nat.lt_succ_self _)⟩
        else do
          let ⟨s, ts₁, h₁⟩ ← step functions (u :: us)
          have : ts₁.length < us.length + 1 := h₁
          let ⟨more, ts₂, h₂⟩ ← steps functions ts₁
          return ⟨.path true (s :: more), ts₂, by simp only [List.length_cons]; omega⟩
    | .rootDescent => do
      let ⟨s, ts₁, h₁⟩ ← step functions ts
      let ⟨more, ts₂, h₂⟩ ← steps functions ts₁
      return ⟨.path true (.anyBelow :: s :: more), ts₂, by simp only [List.length_cons]; omega⟩
    | _ => do
      let ⟨s, ts₁, h₁⟩ ← step functions (t :: ts)
      have : ts₁.length < ts.length + 1 := h₁
      let ⟨more, ts₂, h₂⟩ ← steps functions ts₁
      return ⟨.path false (s :: more), ts₂, by omega⟩
termination_by 4 * ts.length + 1

def steps (functions : Registry) (ts : List Token) : Reading (List (Step Expr)) ts.length :=
  match ts with
  | [] => unexpectedEnd
  | t :: ts =>
    match t.kind with
    | .pathEnd => return ⟨[], ts, Nat.lt_succ_self _⟩
    | .slash => do
      let ⟨s, ts₁, h₁⟩ ← step functions ts
      let ⟨more, ts₂, h₂⟩ ← steps functions ts₁
      return ⟨s :: more, ts₂, by simp only [List.length_cons]; omega⟩
    | .descent => do
      let ⟨s, ts₁, h₁⟩ ← step functions ts
      let ⟨more, ts₂, h₂⟩ ← steps functions ts₁
      return ⟨.anyBelow :: s :: more, ts₂, by simp only [List.length_cons]; omega⟩
    | _ => unexpected t
termination_by 4 * ts.length + 0

def step (functions : Registry) (ts : List Token) : Reading (Step Expr) ts.length := do
  let ⟨(axis, test), ts₁, h₁⟩ ← stepHead ts
  let ⟨conditions, ts₂, h₂⟩ ← predicates functions ts₁
  return ⟨⟨axis, test, conditions⟩, ts₂, by omega⟩
termination_by 4 * ts.length + 0

def predicates (functions : Registry) (ts : List Token) : Reading (List Expr) (ts.length + 1) :=
  match ts with
  | [] => return ⟨[], [], Nat.lt_succ_self _⟩
  | t :: ts =>
    if t.kind = .predicateStart then do
      let ⟨e, ts₁, h₁⟩ ← expression functions ts
      let ⟨_, ts₂, h₂⟩ ← expect .predicateEnd ts₁
      let ⟨es, ts₃, h₃⟩ ← predicates functions ts₂
      return ⟨e :: es, ts₃, by simp only [List.length_cons]; omega⟩
    else return ⟨[], t :: ts, Nat.lt_succ_self _⟩
termination_by 4 * ts.length + 0

end

end Parser

/-! ### Whole expressions -/

def parseTokens (functions : Registry) (ts : List Token) : Except ParseError Expr :=
  if ts.isEmpty then .error (.grammar .empty)
  else
    match Parser.expression functions ts with
    | .error e => .error e
    | .ok ⟨e, [], _⟩ => .ok e
    | .ok ⟨_, t :: _, _⟩ => Parser.unexpected t

/-- Reads a text as an expression, with at most `limit` predicates and argument lists open at
once. -/
def parse (functions : Registry) (limit : Nat) (s : String) : Except ParseError Expr :=
  match tokenize limit s with
  | .error e => .error (.lexical e)
  | .ok ts => parseTokens functions ts

end XPath
