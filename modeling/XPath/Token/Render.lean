import XPath.Text.Alphabetic
import XPath.Token

/-!
# Tokens written as an expression

Tokens are written one after the other, without white space except around the words `and` and `or`,
and a literal is always quoted with a quote that it does not contain.  What a token adds depends on
what is already written and on the calls that are open.

* `quoteLiteral`: a literal between quotes;
* `Rendering.add`: one more token;
* `renderTokens`: a list of tokens.
-/

namespace XPath

/-- A literal between quotes: double quotes if it contains a single quote, else single ones. -/
def quoteLiteral (s : String) : String :=
  if '\'' ∈ s.toList then "\"" ++ s ++ "\"" else "'" ++ s ++ "'"

/-- An operator, with a space on each side if it is a word. -/
def spaceOperator (s : String) : String :=
  if s.toList.all Text.isAlphabetic then " " ++ s ++ " " else s

/-- A rendering on its way. -/
structure Rendering where
  written : String
  /-- The calls that are open, the innermost first, and whether each has had an argument. -/
  openCalls : List Bool

namespace Rendering

/-- More text, with the same calls open. -/
def append (r : Rendering) (s : String) : Rendering :=
  { r with written := r.written ++ s }

/-- The rendering without its last character, if it has one. -/
def dropLast (r : Rendering) : Rendering :=
  { r with written := String.ofList r.written.toList.dropLast }

/-- An argument begins: there is a comma in front of every one but the first of a call, and none
outside of calls. -/
def beginArgument (r : Rendering) : Rendering :=
  match r.openCalls with
  | [] => r
  | seen :: outer => { (if seen then r.append "," else r) with openCalls := true :: outer }

/-- One more token.  A node type is closed at once, and its literal, if it has one, opens it again;
the text of an argument is not looked at. -/
def add (r : Rendering) (t : Token) : Rendering :=
  match t.kind with
  | .rootSlash | .slash => r.append "/"
  | .rootDescent | .descent => r.append "//"
  | .name | .number => r.append t.text
  | .nameSpace => r.append (t.text ++ ":")
  | .axis => r.append (t.text ++ "::")
  | .attributeSign => r.append "@"
  | .nodeType => r.append (t.text ++ "()")
  -- the parentheses of the node type are closed already
  | .target => r.dropLast.append (quoteLiteral t.text ++ ")")
  | .call => { r.append (t.text ++ "(") with openCalls := false :: r.openCalls }
  | .argument => r.beginArgument
  | .callEnd => { r.append ")" with openCalls := r.openCalls.tail }
  | .string => r.append (quoteLiteral t.text)
  | .variable => r.append ("$" ++ t.text)
  | .operator => r.append (spaceOperator t.text)
  | .predicateStart => r.append "["
  | .predicateEnd => r.append "]"
  | .pathEnd => r

end Rendering

/-- The tokens as an expression. -/
def renderTokens (ts : List Token) : String :=
  (ts.foldl Rendering.add ⟨"", []⟩).written

end XPath
