import XPath.Text.Quoted

/-!
# Tokens

A token is a lexical unit of an expression together with its place.

* `Token.Kind`: the kinds of lexical units;
* `Token`: a kind, the characters it was read from, and their offset in bytes;
* `Token.describe`: a token on one line.
-/

namespace XPath

inductive Token.Kind
  /-- A slash that begins a path at the root. -/
  | rootSlash
  /-- Two slashes that begin a path at the root. -/
  | rootDescent
  /-- A slash between two steps. -/
  | slash
  /-- Two slashes between two steps. -/
  | descent
  /-- A name in a step, a star, or one or two points. -/
  | name
  /-- A name before a single colon. -/
  | nameSpace
  /-- The name of an axis, before two colons. -/
  | axis
  /-- The sign for the attribute axis. -/
  | attributeSign
  /-- The name of a node type, before its parentheses. -/
  | nodeType
  /-- The literal inside the parentheses of a node type. -/
  | target
  /-- The name of a function, before its parenthesis. -/
  | call
  /-- The beginning of an argument. -/
  | argument
  /-- The parenthesis that ends a call. -/
  | callEnd
  /-- A string literal, without its quotes. -/
  | string
  /-- A number literal. -/
  | number
  /-- The name of a variable, without its sign. -/
  | variable
  /-- A comparison or a logical word. -/
  | operator
  /-- The bracket that opens a predicate. -/
  | predicateStart
  /-- The bracket that closes a predicate. -/
  | predicateEnd
  /-- The end of a path. -/
  | pathEnd
  deriving DecidableEq, Inhabited

def Token.Kind.label : Token.Kind → String
  | .rootSlash => "AbsLocPath"
  | .rootDescent => "AbbrAbsLocPath"
  | .slash => "RelLocPath"
  | .descent => "AbbrRelLocPath"
  | .name => "QName"
  | .nameSpace => "NCName"
  | .axis => "Axis"
  | .attributeSign => "AbbrAxis"
  | .nodeType => "NodeType"
  | .target => "ProcLiteral"
  | .call => "Function"
  | .argument => "Argument"
  | .callEnd => "EndFunction"
  | .string => "StringLiteral"
  | .number => "NumberLiteral"
  | .variable => "Variable"
  | .operator => "Operator"
  | .predicateStart => "PredicateStart"
  | .predicateEnd => "PredicateEnd"
  | .pathEnd => "EndPath"

/-- A lexical unit and its place. -/
structure Token where
  /-- What the unit is. -/
  kind : Token.Kind
  /-- The characters of the unit. -/
  text : String
  /-- The offset of the first character, in bytes. -/
  offset : Nat
  deriving DecidableEq, Inhabited

namespace Token

/-- The label, the quoted text and the offset of a token. -/
def describe (t : Token) : String :=
  t.kind.label ++ "(" ++ Text.quote t.text ++ ")@" ++ toString t.offset

def unplaced (t : Token) : Kind × String :=
  (t.kind, t.text)

end Token
end XPath
