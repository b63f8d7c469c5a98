/-!
# Character data

Character data holds characters as they are and references to characters.  Line ends among the
former are made uniform, references are kept as they are.

* `Piece`, `pieces?`: character data cut into its pieces;
* `joinLines`: the text of content, every line end a line feed;
* `joinValue`: the value of an attribute, with spaces for line ends and tabs.
-/

namespace XPath.Xml

/-! ### Characters -/

/-- The white space of markup. -/
def isSpace (c : Char) : Bool :=
  c == ' ' || c == '\t' || c == '\n' || c == '\r'

def isDocumentChar (c : Char) : Bool :=
  if c.toNat < 0x20 then isSpace c else c.toNat != 0xFFFE && c.toNat != 0xFFFF

def skipSpace (cs : List Char) : List Char :=
  cs.dropWhile isSpace

theorem length_skipSpace_le (cs : List Char) : (skipSpace cs).length ≤ cs.length :=
  (List.dropWhile_sublist isSpace).length_le

/-! ### Pieces -/

inductive Piece
  /-- A character that stands for itself. -/
  | literal (c : Char)
  /-- A character that is referred to. -/
  | reference (c : Char)
  deriving DecidableEq, Inhabited

def digitValue? (base : Nat) (c : Char) : Option Nat :=
  let n := c.toNat
  let d :=
    if c.isDigit then n - 0x30
    else if 0x61 ≤ n && n ≤ 0x66 then n - 0x57
    else if 0x41 ≤ n && n ≤ 0x46 then n - 0x37
    else 16
  if d < base then some d else none

def number? (base : Nat) (cs : List Char) : Option Nat :=
  if cs.isEmpty then none
  else cs.foldlM (fun n c => (digitValue? base c).map (base * n + ·)) 0

/-- The character with a given number; a number of no character gives the replacement character,
unless it takes more than thirty-two bits. -/
def charOfNumber? (n : Nat) : Option Char :=
  if Nat.pow 2 32 ≤ n then none
  else
    let c := if n.isValidChar then Char.ofNat n else '\uFFFD'
    if isDocumentChar c then some c else none

def namedChars : List (String × Char) :=
  [("quot", '"'), ("amp", '&'), ("apos", '\''), ("lt", '<'), ("gt", '>')]

/-- The character that a reference names between its ampersand and its semicolon. -/
def charOfReference? : List Char → Option Char
  | '#' :: 'x' :: digits => (number? 16 digits).bind charOfNumber?
  | '#' :: digits => (number? 10 digits).bind charOfNumber?
  | name => namedChars.lookup (String.ofList name)

/-- The pieces of character data, if all its references are to known characters. -/
def pieces? : List Char → Option (List Piece)
  | [] => some []
  | '&' :: cs =>
    match _h : cs.dropWhile (· != ';') with
    | ';' :: rest => do
      let c ← charOfReference? (cs.takeWhile (· != ';'))
      let ps ← pieces? rest
      return .reference c :: ps
    | _ => none
  | c :: cs => (pieces? cs).map (.literal c :: ·)
termination_by cs => cs.length
decreasing_by
  · have := (List.dropWhile_sublist (fun c => c != ';') (l := cs)).length_le
    rw [_h] at this
    simp at this ⊢
    omega
  · simp

/-! ### Texts -/

/-- The text of content.  A carriage return that stands for itself ends a line, alone or with a line
feed behind it; only next to a reference may it stay, before one, or behind one at the end. -/
def joinLines (afterReference : Bool) : List Piece → List Char
  | [] => []
  | .reference c :: ps => c :: joinLines true ps
  | .literal '\r' :: .literal '\n' :: ps => '\n' :: joinLines false ps
  | .literal '\r' :: .literal c :: ps => '\n' :: joinLines false (.literal c :: ps)
  | .literal '\r' :: .reference c :: ps => '\r' :: joinLines false (.reference c :: ps)
  | [.literal '\r'] => [if afterReference then '\r' else '\n']
  | .literal c :: ps => c :: joinLines false ps

/-- The value of an attribute: a tab or the end of a line becomes a space. -/
def joinValue : List Piece → List Char
  | [] => []
  | .reference c :: ps => c :: joinValue ps
  | .literal '\r' :: .literal '\n' :: ps => ' ' :: joinValue ps
  | .literal c :: ps => (if isSpace c then ' ' else c) :: joinValue ps

end XPath.Xml
