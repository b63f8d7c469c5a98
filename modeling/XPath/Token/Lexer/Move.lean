import XPath.Axis
import XPath.Name
import XPath.Token.Cursor
import XPath.Token.LexError

/-!
# Moves of the lexer

The lexer reads an expression from left to right.  What it expects next is its *mode*; the
predicates and argument lists that are still open are kept in a stack of *enclosures*, so reading
inside them is the same as reading at the outermost level.

* `Lexer.Mode`, `Lexer.Enclosure`, `Lexer.State`: where the lexer is;
* `Lexer.Move`: the outcome of one move, which emits tokens, stops or fails;
* `Lexer.move`: one move.
-/

namespace XPath
namespace Lexer

/-! ### States -/

/-- What the lexer expects next. -/
inductive Mode
  /-- An operand of an operator, or nothing at all. -/
  | operand
  /-- A location step, or the rest of one after its axis or prefix. -/
  | step
  /-- A predicate, the next step or the end of the path. -/
  | trail
  /-- An operator, or the end of the expression. -/
  | operator
  deriving DecidableEq

/-- An open bracket whose end is still to come. -/
inductive Enclosure
  /-- A predicate opened at the offset. -/
  | predicate (offset : Nat)
  /-- The argument list of the function named at the offset. -/
  | call (function : String) (offset : Nat)
  deriving DecidableEq

structure State where
  /-- What is expected next. -/
  mode : Mode
  /-- The place in the text. -/
  cursor : Cursor
  /-- The open predicates and argument lists, the innermost first. -/
  enclosures : List Enclosure
  /-- The token emitted last. -/
  last : Option Token
  deriving DecidableEq

inductive Move
  /-- Emit the tokens and go on. -/
  | emit (tokens : List Token) (next : State)
  /-- The text is read. -/
  | stop
  /-- The text cannot be read. -/
  | fail (error : LexError)

/-- Emits a list of tokens and goes on in another mode at another place. -/
def State.emit (s : State) (tokens : List Token) (mode : Mode) (cursor : Cursor)
    (enclosures : List Enclosure) : Move :=
  .emit tokens ⟨mode, cursor, enclosures, tokens.getLast?.or s.last⟩

/-- Emits a list of tokens and goes on in another mode at another place, inside the same
enclosures. -/
def State.continue (s : State) (tokens : List Token) (mode : Mode) (cursor : Cursor) : Move :=
  s.emit tokens mode cursor s.enclosures

/-- Emits a list of tokens and reads an operand inside one more enclosure, if the limit allows. -/
def State.enter (s : State) (limit : Nat) (tokens : List Token) (cursor : Cursor)
    (enclosure : Enclosure) : Move :=
  if limit ≤ s.enclosures.length then .fail (.nestingTooDeep limit)
  else s.emit tokens .operand cursor (enclosure :: s.enclosures)

/-! ### Words -/

def isStepStart (c : Char) : Bool :=
  isNameStart c || c == '*' || c == '.' || c == '@'

def isQuote (c : Char) : Bool :=
  c == '\'' || c == '"'

/-- Whether the first character, if there is one, satisfies `p`. -/
def startsWith (p : Char → Bool) (cs : List Char) : Bool :=
  cs.head?.any p

/-- The length of the word that begins a step: a star alone, or a run of name characters. -/
def stepWordLength (cs : List Char) : Nat :=
  if startsWith (· == '*') cs then 1 else (cs.takeWhile isNameChar).length

/-- The length of a variable's name; inside it a colon counts where a name start follows. -/
def variableLength (begun : Bool) : List Char → Nat
  | [] => 0
  | c :: cs =>
    if isNameChar c || (c == ':' && begun && startsWith isNameStart cs) then
      variableLength true cs + 1
    else 0

/-- The length of digits with at most one point after them and more digits behind it. -/
def numberLength (cs : List Char) : Nat :=
  let whole := (cs.takeWhile Char.isDigit).length
  match cs.drop whole with
  | '.' :: fraction => whole + 1 + (fraction.takeWhile Char.isDigit).length
  | _ => whole

/-- The length of the operator that the characters begin with, or zero. -/
def operatorLength : List Char → Nat
  | '=' :: _ => 1
  | '!' :: '=' :: _ => 2
  | '<' :: '=' :: _ => 2
  | '>' :: '=' :: _ => 2
  | '<' :: _ => 1
  | '>' :: _ => 1
  | cs =>
    let word := cs.takeWhile isNameChar
    if word = ['a', 'n', 'd'] ∨ word = ['o', 'r'] then word.length else 0

def nodeTypes : List String :=
  ["comment", "text", "processing-instruction", "node"]

/-- The node type that takes a literal. -/
def targetedNodeType : String :=
  "processing-instruction"

/-- Reads a literal whose opening quote comes next: the token for its content, and the place after
the closing quote. -/
def literal? (c : Cursor) (kind : Token.Kind) : Option (Token × Cursor) :=
  match c.rest with
  | [] => none
  | quote :: body =>
    let n := (body.takeWhile (· != quote)).length
    if n < body.length then some ((c.advance 1).token kind n, c.advance (n + 2)) else none

/-! ### Moves -/

/-- The move where an expression ends: the innermost enclosure is closed or, in an argument list,
the next argument begins.  The cursor stands after any white space. -/
def closingMove (s : State) (c : Cursor) : Move :=
  match s.enclosures with
  | [] => .stop
  | .predicate o :: outer =>
    match c.rest with
    | ']' :: _ => s.emit [c.token .predicateEnd 1] .trail (c.advance 1) outer
    | _ => .fail (.unterminatedPredicate o)
  | .call f o :: outer =>
    match c.rest with
    | [] => .fail (.unterminatedCall f o)
    | ')' :: _ => s.emit [c.token .callEnd 1] .trail (c.advance 1) outer
    | ',' :: _ => s.continue [c.token .argument 1] .operand (c.advance 1)
    | found :: _ => .fail (.unexpectedCharacter found c.offset)

def operandMove (s : State) : Move :=
  let c := s.cursor.skipBlank
  match c.rest with
  | [] => closingMove s c
  | '/' :: '/' :: _ => s.continue [c.token .rootDescent 2] .step (c.advance 2)
  | '/' :: _ =>
    let next := (c.advance 1).skipBlank
    if startsWith isStepStart next.rest then s.continue [c.token .rootSlash 1] .step next
    -- the root alone
    else s.continue [c.token .rootSlash 1, next.token .pathEnd 0] .operator next
  | '$' :: _ =>
    let name := c.advance 1
    let n := variableLength false name.rest
    if n = 0 then .fail (.unexpectedCharacter '$' c.offset)
    else s.continue [name.token .variable n] .trail (name.advance n)
  | found :: rest =>
    if isQuote found then
      match literal? c .string with
      | some (token, next) => s.continue [token] .operator next
      | none => .fail (.unterminatedLiteral c.offset)
    else if found.isDigit || (found == '.' && startsWith Char.isDigit rest) then
      let n := numberLength c.rest
      s.continue [c.token .number n] .operator (c.advance n)
    -- a step, which the next move reads
    else if isStepStart found then s.continue [] .step c
    else .fail (.unexpectedCharacter found c.offset)

/-- The move at a node type, whose name has `n` characters at `c`; the parenthesis is at `paren`. -/
def nodeTypeMove (s : State) (c : Cursor) (n : Nat) (paren : Cursor) : Move :=
  let name := c.token .nodeType n
  let inside := (paren.advance 1).skipBlank
  let close (tokens : List Token) (c : Cursor) : Move :=
    match c.rest with
    | ')' :: _ => s.continue tokens .trail (c.advance 1)
    | _ => .fail (.unterminatedNodeType name.text name.offset)
  if name.text = targetedNodeType ∧ startsWith isQuote inside.rest then
    match literal? inside .target with
    | some (token, next) => close [name, token] next.skipBlank
    | none => .fail (.unterminatedLiteral inside.offset)
  else close [name] inside

/-- The move at a call, whose name has `n` characters at `c`; the parenthesis is at `paren`. -/
def callMove (s : State) (limit : Nat) (c : Cursor) (n : Nat) (paren : Cursor) : Move :=
  let name := c.token .call n
  let inside := (paren.advance 1).skipBlank
  match inside.rest with
  | ')' :: _ => s.continue [name, inside.token .callEnd 1] .trail (inside.advance 1)
  | _ => s.enter limit [name, inside.token .argument 0] inside (.call name.text name.offset)

def stepMove (s : State) (limit : Nat) : Move :=
  let c := s.cursor.skipBlank
  let n := stepWordLength c.rest
  let next := (c.advance n).skipBlank
  let word := (c.token .name n).text
  match next.rest with
  | ':' :: ':' :: _ =>
    if (Axis.ofName? word).isSome then s.continue [c.token .axis n] .step (next.advance 2)
    else .fail (.invalidAxis word c.offset)
  | ':' :: _ =>
    if n = 0 ∨ word = "*" then .fail (.unexpectedCharacter ':' next.offset)
    else s.continue [c.token .nameSpace n] .step (next.advance 1)
  | '(' :: _ =>
    if n = 0 ∨ word = "*" then .fail (.unexpectedCharacter '(' next.offset)
    else if word ∈ nodeTypes then nodeTypeMove s c n next
    else callMove s limit c n next
  | following =>
    if n ≠ 0 then s.continue [c.token .name n] .trail next
    else if startsWith (· == '@') following then
      s.continue [next.token .attributeSign 1] .step (next.advance 1)
    else
      match s.last with
      | some t => .fail (.incompleteStep t.text t.offset)
      | none => .fail (.incompleteStep "" next.offset)

/-- The move after a complete step, a variable or a call. -/
def trailMove (s : State) (limit : Nat) : Move :=
  let c := s.cursor.skipBlank
  match c.rest with
  | '[' :: _ => s.enter limit [c.token .predicateStart 1] (c.advance 1) (.predicate c.offset)
  | '/' :: '/' :: _ => s.continue [c.token .descent 2] .step (c.advance 2)
  | '/' :: _ => s.continue [c.token .slash 1] .step (c.advance 1)
  | _ => s.continue [c.token .pathEnd 0] .operator c

/-- The characters at which an enclosed expression ends. -/
def isCloser (c : Char) : Bool :=
  c == ',' || c == ')' || c == ']'

def operatorMove (s : State) : Move :=
  let c := s.cursor.skipBlank
  match c.rest with
  | [] => closingMove s c
  | found :: _ =>
    if isCloser found && !s.enclosures.isEmpty then closingMove s c
    else
      let n := operatorLength c.rest
      if n = 0 then .fail (.unexpectedCharacter found c.offset)
      else s.continue [c.token .operator n] .operand (c.advance n)

def move (limit : Nat) (s : State) : Move :=
  match s.mode with
  | .operand => operandMove s
  | .step => stepMove s limit
  | .trail => trailMove s limit
  | .operator => operatorMove s

end Lexer
end XPath
