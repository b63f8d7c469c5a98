import XPath.Proofs.Token.Lexed
import XPath.Token.Render

/-!
# What tokens are written as

The writer keeps what is already written and the calls that are open, and a token may change both.
On a list of tokens that the lexer may emit the same text is put together from the back: there the
text of an argument tells whether it is the first of its call, and the token behind a node type
whether the parentheses stay empty.

* `writtenChars`: the tokens put together from the back, with one equation for each kind;
* `Writes.of_add`: what some tokens add, and what the others add to that;
* `toList_renderTokens`: the writer agrees with `writtenChars`.
-/

namespace XPath

/-- A token on its own, with the parentheses of a node type left open; an argument of a token list
that is read from a text has a comma for its text, unless it is the first of a call. -/
def Token.written (t : Token) : String :=
  match t.kind with
  | .rootSlash | .slash => "/"
  | .rootDescent | .descent => "//"
  | .name | .number | .argument => t.text
  | .nameSpace => t.text ++ ":"
  | .axis => t.text ++ "::"
  | .attributeSign => "@"
  | .nodeType => t.text ++ "("
  | .target => quoteLiteral t.text ++ ")"
  | .call => t.text ++ "("
  | .callEnd => ")"
  | .string => quoteLiteral t.text
  | .variable => "$" ++ t.text
  | .operator => spaceOperator t.text
  | .predicateStart => "["
  | .predicateEnd => "]"
  | .pathEnd => ""

/-- Whether the next token is the literal of a node type. -/
def targetFollows : List Token → Bool
  | t :: _ => t.kind == .target
  | [] => false

/-- The characters of the tokens; a node type without a literal is closed at once. -/
def writtenChars : List Token → List Char
  | [] => []
  | t :: ts =>
    let closing := if t.kind = .nodeType && !targetFollows ts then [')'] else []
    t.written.toList ++ closing ++ writtenChars ts

namespace Lexer

/-! ### The written form of each token -/

@[simp] theorem writtenChars_nil : writtenChars [] = [] := rfl

section Equations

variable (s : String) (o : Nat) (ts : List Token)

/-- A token that is no node type is written on its own. -/
theorem writtenChars_cons (kind : Token.Kind) (w : String) (plain : kind ≠ .nodeType)
    (written : Token.written ⟨kind, s, o⟩ = w) :
    writtenChars (⟨kind, s, o⟩ :: ts) = w.toList ++ writtenChars ts := by
  simp [writtenChars, plain, written]

@[simp] theorem writtenChars_rootSlash :
    writtenChars (⟨.rootSlash, s, o⟩ :: ts) = '/' :: writtenChars ts := by
  simpa using writtenChars_cons s o ts .rootSlash "/" (by decide) rfl

@[simp] theorem writtenChars_rootDescent :
    writtenChars (⟨.rootDescent, s, o⟩ :: ts) = '/' :: '/' :: writtenChars ts := by
  simpa using writtenChars_cons s o ts .rootDescent "//" (by decide) rfl

@[simp] theorem writtenChars_slash :
    writtenChars (⟨.slash, s, o⟩ :: ts) = '/' :: writtenChars ts := by
  simpa using writtenChars_cons s o ts .slash "/" (by decide) rfl

@[simp] theorem writtenChars_descent :
    writtenChars (⟨.descent, s, o⟩ :: ts) = '/' :: '/' :: writtenChars ts := by
  simpa using writtenChars_cons s o ts .descent "//" (by decide) rfl

@[simp] theorem writtenChars_attributeSign :
    writtenChars (⟨.attributeSign, s, o⟩ :: ts) = '@' :: writtenChars ts := by
  simpa using writtenChars_cons s o ts .attributeSign "@" (by decide) rfl

@[simp] theorem writtenChars_callEnd :
    writtenChars (⟨.callEnd, s, o⟩ :: ts) = ')' :: writtenChars ts := by
  simpa using writtenChars_cons s o ts .callEnd ")" (by decide) rfl

@[simp] theorem writtenChars_predicateStart :
    writtenChars (⟨.predicateStart, s, o⟩ :: ts) = '[' :: writtenChars ts := by
  simpa using writtenChars_cons s o ts .predicateStart "[" (by decide) rfl

@[simp] theorem writtenChars_predicateEnd :
    writtenChars (⟨.predicateEnd, s, o⟩ :: ts) = ']' :: writtenChars ts := by
  simpa using writtenChars_cons s o ts .predicateEnd "]" (by decide) rfl

@[simp] theorem writtenChars_pathEnd :
    writtenChars (⟨.pathEnd, s, o⟩ :: ts) = writtenChars ts := by
  simpa using writtenChars_cons s o ts .pathEnd "" (by decide) rfl

@[simp] theorem writtenChars_axis :
    writtenChars (⟨.axis, s, o⟩ :: ts) = s.toList ++ ':' :: ':' :: writtenChars ts := by
  simpa using writtenChars_cons s o ts .axis (s ++ "::") (by decide) rfl

@[simp] theorem writtenChars_nameSpace :
    writtenChars (⟨.nameSpace, s, o⟩ :: ts) = s.toList ++ ':' :: writtenChars ts := by
  simpa using writtenChars_cons s o ts .nameSpace (s ++ ":") (by decide) rfl

@[simp] theorem writtenChars_name :
    writtenChars (⟨.name, s, o⟩ :: ts) = s.toList ++ writtenChars ts :=
  writtenChars_cons s o ts .name s (by decide) rfl

@[simp] theorem writtenChars_call :
    writtenChars (⟨.call, s, o⟩ :: ts) = s.toList ++ '(' :: writtenChars ts := by
  simpa using writtenChars_cons s o ts .call (s ++ "(") (by decide) rfl

@[simp] theorem writtenChars_argument :
    writtenChars (⟨.argument, s, o⟩ :: ts) = s.toList ++ writtenChars ts :=
  writtenChars_cons s o ts .argument s (by decide) rfl

@[simp] theorem writtenChars_number :
    writtenChars (⟨.number, s, o⟩ :: ts) = s.toList ++ writtenChars ts :=
  writtenChars_cons s o ts .number s (by decide) rfl

@[simp] theorem writtenChars_variable :
    writtenChars (⟨.variable, s, o⟩ :: ts) = '$' :: (s.toList ++ writtenChars ts) := by
  simpa using writtenChars_cons s o ts .variable ("$" ++ s) (by decide) rfl

@[simp] theorem writtenChars_operator :
    writtenChars (⟨.operator, s, o⟩ :: ts) = (spaceOperator s).toList ++ writtenChars ts :=
  writtenChars_cons s o ts .operator (spaceOperator s) (by decide) rfl

theorem writtenChars_quoted :
    writtenChars (⟨.string, s, o⟩ :: ts) = (quoteLiteral s).toList ++ writtenChars ts :=
  writtenChars_cons s o ts .string (quoteLiteral s) (by decide) rfl

/-- A literal is written between quotes that do not occur in it. -/
theorem writtenChars_string {s : String} (h : IsLiteral s.toList) :
    ∃ q, isQuote q ∧ q ∉ s.toList ∧
      writtenChars (⟨.string, s, o⟩ :: ts) = q :: (s.toList ++ q :: writtenChars ts) := by
  obtain ⟨q, hq, hmem, hquoted⟩ := toList_quoteLiteral h
  exact ⟨q, hq, hmem, by simp [writtenChars_quoted, hquoted]⟩

/-- A node type without a literal is closed at once. -/
theorem writtenChars_nodeType (h : targetFollows ts = false) :
    writtenChars (⟨.nodeType, s, o⟩ :: ts) = s.toList ++ '(' :: ')' :: writtenChars ts := by
  simp [writtenChars, Token.written, h]

/-- A node type with a literal is closed behind it. -/
theorem writtenChars_target (o' : Nat) :
    writtenChars (⟨.nodeType, targetedNodeType, o⟩ :: ⟨.target, s, o'⟩ :: ts) =
      targetedNodeType.toList ++ '(' :: ((quoteLiteral s).toList ++ ')' :: writtenChars ts) := by
  simp [writtenChars, Token.written, targetFollows]

end Equations

theorem targetFollows_of_lexed {limit : Nat} {es : List Bracket} {ts : List Token}
    (h : Lexed limit .trail es ts) : targetFollows ts = false := by
  cases h <;> rfl

/-! ### The writer -/

/-- The open calls among open brackets; where an operand or an operator is expected, each of them
has had an argument. -/
def openCalls : List Bracket → List Bool
  | [] => []
  | .predicate :: es => openCalls es
  | .call :: es => true :: openCalls es

/-- Behind any text, inside the open calls of the brackets, the writer adds the characters of the
tokens. -/
def Writes (es : List Bracket) (ts : List Token) : Prop :=
  ∀ out, (ts.foldl Rendering.add ⟨out, openCalls es⟩).written.toList =
    out.toList ++ writtenChars ts

theorem writes_nil (es : List Bracket) : Writes es [] := by
  intro out
  simp

/-- The first tokens add a word and leave other brackets, inside which the writer adds the other
tokens. -/
theorem Writes.of_add {es es' : List Bracket} {ts : List Token} (tokens : List Token) {w : String}
    (h : Writes es' ts)
    (hadd : ∀ out, tokens.foldl Rendering.add ⟨out, openCalls es⟩ = ⟨out ++ w, openCalls es'⟩)
    (hchars : writtenChars (tokens ++ ts) = w.toList ++ writtenChars ts) :
    Writes es (tokens ++ ts) := by
  intro out
  rw [List.foldl_append, hadd, h, hchars, String.toList_append, List.append_assoc]

/-- What was added is there without its last character. -/
theorem dropLast_append (r : Rendering) {s w : String} {c : Char} (h : s.toList = w.toList ++ [c]) :
    (r.append s).dropLast = r.append w := by
  have hwritten : (r.append s).written.toList = (r.written ++ w).toList ++ [c] := by
    simp [Rendering.append, h]
  simp only [Rendering.dropLast, hwritten, List.dropLast_concat, String.ofList_toList]
  rfl

/-- The literal of a node type takes the place of the parenthesis that closed it. -/
theorem foldl_add_target (r : Rendering) (s lit : String) (o o' : Nat) :
    [⟨.nodeType, s, o⟩, ⟨.target, lit, o'⟩].foldl Rendering.add r =
      r.append (s ++ "(" ++ (quoteLiteral lit ++ ")")) := by
  have hopen : (r.append (s ++ "()")).dropLast = r.append (s ++ "(") :=
    dropLast_append (c := ')') r (by simp)
  show (r.append (s ++ "()")).dropLast.append (quoteLiteral lit ++ ")") = _
  rw [hopen]
  simp [Rendering.append, String.append_assoc]

/-- A call that ends at once leaves the open calls as they were. -/
theorem foldl_add_emptyCall (r : Rendering) (f s : String) (o o' : Nat) :
    [⟨.call, f, o⟩, ⟨.callEnd, s, o'⟩].foldl Rendering.add r = r.append (f ++ "()") := by
  show Rendering.mk (r.written ++ (f ++ "(") ++ ")") r.openCalls = _
  simp [Rendering.append, String.append_assoc]

/-- The writer adds the characters of every list of tokens that may follow inside the brackets. -/
theorem writes_of_lexed {limit : Nat} {mode : Mode} {es : List Bracket} {ts : List Token}
    (h : Lexed limit mode es ts) : Writes es ts := by
  induction h with
  | noOperand => exact writes_nil _
  | rootDescent rest ih => exact ih.of_add [_] (fun _ => rfl) (writtenChars_rootDescent _ _ _)
  | rootSlash opens rest ih => exact ih.of_add [_] (fun _ => rfl) (writtenChars_rootSlash _ _ _)
  | root opens rest ih => exact ih.of_add [_, _] (fun _ => rfl) (by simp)
  | variableName word rest ih => exact ih.of_add [_] (fun _ => rfl) (by simp)
  | string word rest ih => exact ih.of_add [_] (fun _ => rfl) (writtenChars_quoted _ _ _)
  | number word rest ih => exact ih.of_add [_] (fun _ => rfl) (writtenChars_number _ _ _)
  | path opens noNumber rest ih => exact ih
  | axis a rest ih => exact ih.of_add [_] (fun _ => rfl) (by simp)
  | nameSpace word rest ih => exact ih.of_add [_] (fun _ => rfl) (by simp)
  | attributeSign rest ih => exact ih.of_add [_] (fun _ => rfl) (writtenChars_attributeSign _ _ _)
  | name word rest ih => exact ih.of_add [_] (fun _ => rfl) (writtenChars_name _ _ _)
  | nodeType word rest ih =>
    have hclosed := targetFollows_of_lexed rest
    exact ih.of_add [_] (fun _ => rfl) (by simp [writtenChars_nodeType, hclosed])
  | target word rest ih =>
    exact ih.of_add [_, _] (fun _ => foldl_add_target _ _ _ _ _) (by simp [writtenChars_target])
  | emptyCall word other rest ih =>
    exact ih.of_add [_, _] (fun _ => foldl_add_emptyCall _ _ _ _ _) (by simp)
  | call word other depth rest ih => exact ih.of_add [_, _] (fun _ => rfl) (by simp)
  | predicateStart depth rest ih =>
    exact ih.of_add [_] (fun _ => rfl) (writtenChars_predicateStart _ _ _)
  | slash rest ih => exact ih.of_add [_] (fun _ => rfl) (writtenChars_slash _ _ _)
  | descent rest ih => exact ih.of_add [_] (fun _ => rfl) (writtenChars_descent _ _ _)
  | pathEnd rest ih =>
    -- nothing is written, so the other tokens are added to the same text
    intro out
    rw [writtenChars_pathEnd]
    exact ih out
  | noOperator => exact writes_nil _
  | predicateEnd rest ih => exact ih.of_add [_] (fun _ => rfl) (writtenChars_predicateEnd _ _ _)
  | callEnd rest ih => exact ih.of_add [_] (fun _ => rfl) (writtenChars_callEnd _ _ _)
  | argument rest ih => exact ih.of_add [_] (fun _ => rfl) (writtenChars_argument _ _ _)
  | operator op rest ih => exact ih.of_add [_] (fun _ => rfl) (writtenChars_operator _ _ _)

/-- Tokens that the lexer may emit are written as they stand, without a look at what is written
already. -/
theorem toList_renderTokens {limit : Nat} {ts : List Token} (h : Lexed limit .operand [] ts) :
    (renderTokens ts).toList = writtenChars ts :=
  writes_of_lexed h ""

end Lexer
end XPath
