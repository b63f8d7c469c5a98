import XPath.Token.Lexer.Progress

/-!
# The lexer

* `Lexer.run`: all moves from a state on;
* `tokenize`: all moves from the start of a text.
-/

namespace XPath
namespace Lexer

/-- The tokens that the lexer emits from a state on. -/
def run (limit : Nat) (s : State) : Except LexError (List Token) :=
  match _h : move limit s with
  | .stop => .ok []
  | .fail e => .error e
  | .emit tokens next => (run limit next).map (tokens ++ ·)
termination_by s.measure
decreasing_by exact measure_lt_of_move _h

def start (s : String) : State :=
  ⟨.operand, Cursor.start s, [], none⟩

end Lexer

/-- How many predicates and argument lists may be open at once unless said otherwise. -/
def defaultNesting : Nat :=
  32

/-- The tokens of a text, with at most `limit` predicates and argument lists open at once. -/
def tokenize (limit : Nat) (s : String) : Except LexError (List Token) :=
  Lexer.run limit (Lexer.start s)

end XPath
