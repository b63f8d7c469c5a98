import XPath.Number.Text

/-!
# JSON

* `Json`: values, with fields in the order in which they are written;
* `Json.escape`: a character inside a string;
* `Json.ofFloat`: the text of a double;
* `Json.pretty`: the text of a value over several lines, two spaces for each level.
-/

namespace XPath

inductive Json
  | null
  | boolean (value : Bool)
  | natural (value : Nat)
  | float (value : Float)
  | string (text : String)
  | array (items : List Json)
  | object (fields : List (String × Json))
  deriving Inhabited

namespace Json

/-! ### Strings -/

/-- A code point below 256 in four hexadecimal digits. -/
def hexCode (n : Nat) : List Char :=
  '0' :: '0' :: Nat.digitChar (n / 16) :: [Nat.digitChar (n % 16)]

/-- How a character is written inside a string: quotes, backslashes and control characters are
escaped. -/
def escape (c : Char) : List Char :=
  match c with
  | '"' => ['\\', '"']
  | '\\' => ['\\', '\\']
  | '\x08' => ['\\', 'b']
  | '\x0c' => ['\\', 'f']
  | '\n' => ['\\', 'n']
  | '\r' => ['\\', 'r']
  | '\t' => ['\\', 't']
  | c => if c.toNat < 0x20 then '\\' :: 'u' :: hexCode c.toNat else [c]

def quote (s : String) : String :=
  String.ofList ('"' :: s.toList.flatMap escape ++ ['"'])

/-! ### Numbers -/

/-- The decimal exponents from which on numbers are written without an exponent, and up to which. -/
def positionalExponents : Int × Int :=
  (-5, 15)

/-- Digits with a point behind the first one, if there are more. -/
def pointed : List Char → List Char
  | [] => []
  | [d] => [d]
  | d :: ds => d :: '.' :: ds

/-- A decimal exponent with its sign. -/
def exponent (e : Int) : List Char :=
  'e' :: (if 0 ≤ e then '+' else '-') :: Nat.toDigits 10 e.natAbs

/-- The digits of a decimal: with a point, or with an exponent if it is far from one. -/
def digits (d : Number.Decimal) : List Char :=
  let cs := Nat.toDigits 10 d.coefficient
  let e : Int := d.power + cs.length - 1 - Number.finest
  if positionalExponents.1 ≤ e ∧ e ≤ positionalExponents.2 then
    let text := d.positional
    if text.contains '.' then text else text ++ ['.', '0']
  else pointed cs ++ exponent e

/-- The text of a double: the shortest decimal that reads back, of two the even one; infinities and
what is not a number are null. -/
def ofFloat (x : Float) : String :=
  let b := Number.magnitude x
  if Number.infiniteMagnitude ≤ b then "null"
  else
    let text := if b = 0 then ['0', '.', '0'] else digits (Number.shortest .even b)
    String.ofList (if Number.isNegative x then '-' :: text else text)

/-! ### Values -/

def indent (level : Nat) : String :=
  "\n" ++ String.ofList (List.replicate (2 * level) ' ')

/-- Items between brackets, one on each line; none leave the brackets empty. -/
def enclose (level : Nat) (opening closing : String) (items : List String) : String :=
  if items.isEmpty then opening ++ closing
  else
    opening ++ indent (level + 1) ++ ("," ++ indent (level + 1)).intercalate items ++
      indent level ++ closing

mutual

def prettyAt (level : Nat) : Json → String
  | null => "null"
  | boolean b => if b then "true" else "false"
  | natural n => toString n
  | float x => ofFloat x
  | string s => quote s
  | array items => enclose level "[" "]" (prettyItems (level + 1) items)
  | object fields => enclose level "\x7b" "\x7d" (prettyFields (level + 1) fields)

def prettyItems (level : Nat) : List Json → List String
  | [] => []
  | item :: items => prettyAt level item :: prettyItems level items

def prettyFields (level : Nat) : List (String × Json) → List String
  | [] => []
  | (name, value) :: fields =>
    (quote name ++ ": " ++ prettyAt level value) :: prettyFields level fields

end

def pretty (value : Json) : String :=
  value.prettyAt 0

end Json
end XPath
