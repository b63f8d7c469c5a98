import XPath.Focus
import XPath.LanguageTag
import XPath.Number.Binary64
import XPath.Text.Blank

/-!
# Applying the defined functions

A registry may give a defined function other arities than its own, so the arguments of a call are
looked up one by one, and one that is not there is an error.

* `Builtin.apply`: the value of a function for given arguments;
* `Tree.languageAttribute?`: the attribute that sets the language at a node;
* `callFunction`: the value of a call by name, as far as the registry allows it.
-/

namespace XPath

variable {N : Type}

/-! ### Texts -/

def occursIn (needle : List Char) : List Char → Bool
  | [] => needle.isEmpty
  | c :: cs => needle.isPrefixOf (c :: cs) || occursIn needle cs

/-- The words of a text, one space between any two. -/
def normalizeSpace (s : String) : String :=
  " ".intercalate ((Text.words s.toList).map String.ofList)

/-! ### Languages -/

def languageName : QName :=
  ⟨some "xml", "lang"⟩

/-- The attribute that sets the language, at a node or at the nearest node above it. -/
def Tree.languageAttribute? (T : Tree N) (n : N) : Option N :=
  match T.attribute? n languageName with
  | some a => some a
  | none =>
    match _h : T.parent n with
    | none => none
    | some p => T.languageAttribute? p
termination_by T.depth n
decreasing_by exact T.depth_lt _h

/-- The element that a node is, or else the node above it. -/
def Tree.languageStart? (T : Tree N) (n : N) : Option N :=
  if T.isElement n then some n else T.parent n

def Tree.hasLanguage (T : Tree N) (n : N) (range : String) : Bool :=
  match (T.languageStart? n).bind T.languageAttribute? with
  | some a => LanguageTag.matches? (T.stringValue a) range
  | none => false

/-! ### Arguments -/

namespace Builtin

def argument (f : Builtin) (args : List (Value N)) (i : Nat) : Except EvalError (Value N) :=
  match args[i]? with
  | some v => .ok v
  | none => .error (.missingArgument f i)

def argumentRole (f : Builtin) : String :=
  f.word ++ "() argument"

def nodesArgument (f : Builtin) (args : List (Value N)) : Except EvalError (List N) := do
  let v ← f.argument args 0
  (v.nodes? f.argumentRole).mapError .conversion

def textOrContext (T : Tree N) (args : List (Value N)) (focus : Focus N) : String :=
  match args with
  | [] => T.stringValue focus.node
  | v :: _ => v.toText T

def numberOrNan (T : Tree N) (args : List (Value N)) : Float :=
  args.head?.elim Number.nan (Value.toNumber T)

/-- The name of the first node of the first argument, or of the context node if there is no
argument. -/
def subjectName (f : Builtin) (T : Tree N) (args : List (Value N)) (focus : Focus N) :
    Except EvalError (Option QName) := do
  if args.isEmpty then return T.name focus.node
  let ns ← f.nodesArgument args
  return (T.first? ns).bind T.name

/-! ### Values -/

/-- The value of a function for given arguments. -/
def apply (f : Builtin) (T : Tree N) (args : List (Value N)) (focus : Focus N) :
    Except EvalError (Value N) :=
  match f with
  | boolean => return .boolean (args.any Value.toBool)
  | negation => return .boolean !(args.any Value.toBool)
  | truth => return .boolean true
  | falsity => return .boolean false
  | lang => do
    let range ← f.argument args 0
    return .boolean (T.hasLanguage focus.node (range.toText T))
  | number => return .number ((args.headD (.nodes [focus.node])).toNumber T)
  | sum => do
    let ns ← f.nodesArgument args
    -- the sum of no numbers is the negative zero
    return .number (ns.foldl (fun total n => total + Value.nodeNumber T n) (-0.0))
  | floor => return .number (Number.floor (numberOrNan T args))
  | ceiling => return .number (Number.ceiling (numberOrNan T args))
  | round => return .number (Number.round (numberOrNan T args))
  | string => return .string (textOrContext T args focus)
  | count => do
    let ns ← f.nodesArgument args
    return .number (Float.ofNat ns.length)
  | position => return .number (Float.ofNat focus.position)
  | last => return .number (Float.ofNat focus.size)
  | localName => do
    let q ← f.subjectName T args focus
    return .string (q.elim "" QName.localPart)
  | name => do
    let q ← f.subjectName T args focus
    return .string (q.elim "" QName.toText)
  | concat => return .string (String.join (args.map (Value.toText T)))
  | contains => do
    -- the last argument is taken first
    let needle ← f.argument args 1
    let s ← f.argument args 0
    return .boolean (occursIn (needle.toText T).toList (s.toText T).toList)
  | startsWith => do
    let start ← f.argument args 1
    let s ← f.argument args 0
    return .boolean ((start.toText T).toList.isPrefixOf (s.toText T).toList)
  | stringLength => return .number (Float.ofNat (textOrContext T args focus).length)
  | normalizeSpace => return .string (XPath.normalizeSpace (textOrContext T args focus))

end Builtin

/-- The value of a call by name, if the registry allows it and the function is defined. -/
def callFunction (T : Tree N) (functions : Registry) (name : String) (args : List (Value N))
    (focus : Focus N) : Except EvalError (Value N) :=
  match functions.check name args.length with
  | .error e => .error (.call e)
  | .ok () =>
    match Builtin.ofWord? name with
    | some f => f.apply T args focus
    | none => .error (.call (.undefined name))

end XPath
