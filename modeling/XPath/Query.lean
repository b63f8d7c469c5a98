import XPath.Eval
import XPath.Expr.Parser
import XPath.Json
import XPath.Xml.Location

/-!
# Queries

* `Options`: how a query is read and evaluated;
* `QueryError`: why it has no result;
* `QueryResult`, `query`: the result of an expression on a document;
* `QueryResult.toText`, `QueryResult.toJson`: the result as text;
* `tokenLines`, `tokensToJson`: a list of tokens as text.
-/

namespace XPath

/-! ### Queries and their results -/

/-- How a query is read and evaluated. -/
structure Options where
  /-- How many predicates and argument lists may be open at once. -/
  nesting : Nat := defaultNesting
  /-- Whether a variable without a value is an error. -/
  strict : Bool := false
  deriving DecidableEq, Inhabited

/-- Why a query has no result. -/
inductive QueryError
  /-- The text is no expression. -/
  | parse (text : String) (error : ParseError)
  /-- The expression has no value. -/
  | eval (error : EvalError)
  /-- The text is no document. -/
  | document
  deriving DecidableEq, Inhabited

def QueryError.message : QueryError → String
  | .parse text e => "XPath error: " ++ e.message text
  | .eval e => "XPath error: " ++ e.message
  | .document => "XML parsing failed"

structure NodeRecord where
  /-- The kind of the node. -/
  kind : NodeKind
  /-- Its name, if it has one. -/
  name : Option QName
  /-- The text that it stands for. -/
  value : String
  deriving DecidableEq, Inhabited

/-- What a tree tells about a node. -/
def Tree.record {N : Type} (T : Tree N) (n : N) : NodeRecord :=
  ⟨T.kind n, T.name n, T.stringValue n⟩

inductive QueryResult
  | nodes (records : List NodeRecord)
  | string (text : String)
  | number (value : Float)
  | boolean (value : Bool)
  deriving Inhabited

/-- What a value tells about its nodes. -/
def Value.result {N : Type} (T : Tree N) : Value N → QueryResult
  | .nodes ns => .nodes (ns.map T.record)
  | .string s => .string s
  | .number x => .number x
  | .boolean b => .boolean b

def queryTokens (options : Options) (text : String) : Except QueryError (List Token) :=
  (tokenize options.nesting text).mapError fun e => .parse text (.lexical e)

/-- The value of an expression at the root of a document. -/
def Xml.Document.evaluate (d : Xml.Document) (options : Options) (e : Expr) :
    Except EvalError (Value Xml.Location) :=
  XPath.evaluate ⟨d.tree, [], .standard, .empty, options.strict⟩ e ⟨[], 1, 1⟩

/-- The result of an expression on a document; the expression is read first. -/
def query (options : Options) (text document : String) : Except QueryError QueryResult := do
  let e ← (parse .standard options.nesting text).mapError (.parse text)
  match Xml.Document.read? document with
  | none => .error .document
  | some d =>
    let v ← (d.evaluate options e).mapError .eval
    return v.result d.tree

/-! ### Results as text -/

/-- A node on one line: its kind, its name if it has one, and its text behind a tab. -/
def NodeRecord.toText (r : NodeRecord) : String :=
  match r.name with
  | some name => r.kind.label ++ " " ++ name.toText ++ "\t" ++ r.value
  | none => r.kind.label ++ "\t" ++ r.value

/-- A node as an object; without a name it has no field for it. -/
def NodeRecord.toJson (r : NodeRecord) : Json :=
  .object <|
    ("kind", .string r.kind.label) ::
      (r.name.toList.map fun name => ("name", .string name.toText)) ++
        [("value", .string r.value)]

namespace QueryResult

/-- A result as text: one line for each node, or the value itself. -/
def toText : QueryResult → String
  | .nodes rs => "\n".intercalate (rs.map NodeRecord.toText)
  | .string s => s
  | .number x => Number.toText x
  | .boolean b => if b then "true" else "false"

def typeName : QueryResult → String
  | .nodes _ => "node-set"
  | .string _ => "string"
  | .number _ => "number"
  | .boolean _ => "boolean"

def valueJson : QueryResult → Json
  | .nodes rs => .array (rs.map NodeRecord.toJson)
  | .string s => .string s
  | .number x => .float x
  | .boolean b => .boolean b

/-- A result as an object that names its type. -/
def toJson (r : QueryResult) : Json :=
  .object [("type", .string r.typeName), ("value", r.valueJson)]

end QueryResult

/-! ### Tokens as text -/

def padLeft (width : Nat) (s : String) : String :=
  String.ofList (List.replicate (width - s.length) ' ') ++ s

def padRight (width : Nat) (s : String) : String :=
  s ++ String.ofList (List.replicate (width - s.length) ' ')

/-- A token on one line: its offset, its label and its quoted text, in columns. -/
def Token.line (t : Token) : String :=
  padLeft 4 (toString t.offset) ++ "  " ++ padRight 16 t.kind.label ++ " " ++ Text.quote t.text

def tokenLines (ts : List Token) : String :=
  "\n".intercalate (ts.map Token.line)

def Token.toJson (t : Token) : Json :=
  .object [("kind", .string t.kind.label), ("text", .string t.text), ("offset", .natural t.offset)]

def tokensToJson (ts : List Token) : Json :=
  .array (ts.map Token.toJson)

end XPath
