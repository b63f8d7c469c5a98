import XPath.Token
import XPath.Text.Blank

/-!
# Places in a text

A cursor stands in front of a character of a text and knows how many bytes lie before it.

* `Cursor`: the characters still to read and the offset of the first of them;
* `Cursor.advance`, `Cursor.skipWhile`, `Cursor.skipBlank`: moving on;
* `Cursor.token`: the token made of the next characters.

A move never lengthens what is left to read (`length_advance`, `length_skipWhile_le`).
-/

namespace XPath

/-- The number of bytes that the characters take in UTF-8. -/
def utf8Length (cs : List Char) : Nat :=
  cs.foldr (fun c n => c.utf8Size + n) 0

@[simp] theorem utf8Length_nil : utf8Length [] = 0 := rfl

@[simp] theorem utf8Length_cons (c : Char) (cs : List Char) :
    utf8Length (c :: cs) = c.utf8Size + utf8Length cs := rfl

@[simp] theorem utf8Length_append (cs ds : List Char) :
    utf8Length (cs ++ ds) = utf8Length cs + utf8Length ds := by
  induction cs with
  | nil => simp
  | cons c cs ih => rw [List.cons_append, utf8Length_cons, utf8Length_cons, ih, Nat.add_assoc]

/-- A place in a text. -/
structure Cursor where
  /-- The characters from this place on. -/
  rest : List Char
  /-- The offset of this place, in bytes. -/
  offset : Nat
  deriving DecidableEq, Inhabited

namespace Cursor

def start (s : String) : Cursor :=
  ⟨s.toList, 0⟩

def advance (c : Cursor) (n : Nat) : Cursor :=
  ⟨c.rest.drop n, c.offset + utf8Length (c.rest.take n)⟩

/-- The place after the longest run of characters that satisfy `p`. -/
def skipWhile (c : Cursor) (p : Char → Bool) : Cursor :=
  ⟨c.rest.dropWhile p, c.offset + utf8Length (c.rest.takeWhile p)⟩

def skipBlank (c : Cursor) : Cursor :=
  c.skipWhile Text.isBlank

def token (c : Cursor) (kind : Token.Kind) (n : Nat) : Token :=
  ⟨kind, String.ofList (c.rest.take n), c.offset⟩

/-! ### What is left to read -/

@[simp] theorem length_advance (c : Cursor) (n : Nat) :
    (c.advance n).rest.length = c.rest.length - n := by
  simp [advance]

theorem length_skipWhile_le (c : Cursor) (p : Char → Bool) :
    (c.skipWhile p).rest.length ≤ c.rest.length :=
  (List.dropWhile_sublist p).length_le

theorem length_skipBlank_le (c : Cursor) : c.skipBlank.rest.length ≤ c.rest.length :=
  c.length_skipWhile_le Text.isBlank

end Cursor
end XPath
