import XPath.Registry

/-!
# The defined functions

* `Builtin`: the functions that are defined;
* `Builtin.word`, `Builtin.ofWord?`: their names, both ways;
* `Builtin.arity`: the arguments that they take;
* `Registry.standard`: all of them, with these arities.
-/

namespace XPath

/-- The functions that are defined. -/
inductive Builtin
  | boolean
  | negation
  | truth
  | falsity
  | lang
  | number
  | sum
  | floor
  | ceiling
  | round
  | string
  | count
  | position
  | last
  | localName
  | name
  | concat
  | contains
  | startsWith
  | stringLength
  | normalizeSpace
  deriving DecidableEq, Inhabited

namespace Builtin

def all : List Builtin :=
  [boolean, negation, truth, falsity, lang, number, sum, floor, ceiling, round, string, count,
    position, last, localName, name, concat, contains, startsWith, stringLength, normalizeSpace]

def word : Builtin → String
  | boolean => "boolean"
  | negation => "not"
  | truth => "true"
  | falsity => "false"
  | lang => "lang"
  | number => "number"
  | sum => "sum"
  | floor => "floor"
  | ceiling => "ceiling"
  | round => "round"
  | string => "string"
  | count => "count"
  | position => "position"
  | last => "last"
  | localName => "local-name"
  | name => "name"
  | concat => "concat"
  | contains => "contains"
  | startsWith => "starts-with"
  | stringLength => "string-length"
  | normalizeSpace => "normalize-space"

def ofWord? (s : String) : Option Builtin :=
  all.find? fun f => f.word == s

def arity : Builtin → Arity
  | boolean | negation | lang | sum | floor | ceiling | round | count => ⟨1, some 1⟩
  | truth | falsity | position | last => ⟨0, some 0⟩
  | number | string | localName | name | stringLength | normalizeSpace => ⟨0, some 1⟩
  | concat => ⟨2, none⟩
  | contains | startsWith => ⟨2, some 2⟩

theorem mem_all (f : Builtin) : f ∈ all := by
  cases f <;> decide

/-- A function is found under its own name. -/
theorem ofWord?_word (f : Builtin) : ofWord? f.word = some f := by
  cases f <;> decide

end Builtin

/-- The defined functions, with the arguments that they take. -/
def Registry.standard : Registry :=
  ⟨Builtin.all.map fun f => (f.word, f.arity)⟩

end XPath
