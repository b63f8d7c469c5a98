/-!
# Lexical errors

* `LexError`: why a text cannot be broken into tokens, and where;
* `LexError.message`: the reason in words.
-/

namespace XPath

/-- Why a text cannot be broken into tokens; offsets count bytes. -/
inductive LexError
  /-- The word before two colons is no axis. -/
  | invalidAxis (axis : String) (offset : Nat)
  /-- No step follows the given token. -/
  | incompleteStep (token : String) (offset : Nat)
  /-- The parenthesis of a node type is not closed. -/
  | unterminatedNodeType (nodeType : String) (offset : Nat)
  /-- The argument list of a call is not closed. -/
  | unterminatedCall (function : String) (offset : Nat)
  /-- A predicate is not closed. -/
  | unterminatedPredicate (offset : Nat)
  /-- A literal is not closed. -/
  | unterminatedLiteral (offset : Nat)
  /-- The character cannot stand at its place. -/
  | unexpectedCharacter (found : Char) (offset : Nat)
  /-- More predicates and argument lists are open at once than the limit allows. -/
  | nestingTooDeep (limit : Nat)
  deriving DecidableEq, Inhabited

def LexError.message : LexError → String
  | .invalidAxis axis o => "Invalid axis specifier '" ++ axis ++ "' at offset " ++ toString o
  | .incompleteStep token o =>
    "Step is not complete after '" ++ token ++ "' at offset " ++ toString o
  | .unterminatedNodeType t o =>
    "Missing ) at end of node type test '" ++ t ++ "' at offset " ++ toString o
  | .unterminatedCall f o =>
    "Missing ) at end of function declaration '" ++ f ++ "' at offset " ++ toString o
  | .unterminatedPredicate o =>
    "Missing ] at end of predicate opened at offset " ++ toString o
  | .unterminatedLiteral o => "Unterminated string literal starting at offset " ++ toString o
  | .unexpectedCharacter c o =>
    "Unexpected character '" ++ String.singleton c ++ "' at offset " ++ toString o
  | .nestingTooDeep n => "Expression nesting exceeds the limit of " ++ toString n

end XPath
