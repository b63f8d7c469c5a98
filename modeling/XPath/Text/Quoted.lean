import XPath.Text.Printable

/-!
# Quoted text

A quoted text stands between double quotes.  A quote, a backslash and the usual control
characters are written as two characters; every other character that is not legible on its own is
written by its code point in hexadecimal.

* `escape`: the written form of one character;
* `quote`: the written form of a text.
-/

namespace XPath.Text

/-- The lower-case hexadecimal digits of a number, without leading zeros. -/
def hexDigits (n : Nat) : List Char :=
  Nat.toDigits 16 n

/-- How one character is written between double quotes. -/
def escape (c : Char) : List Char :=
  match c with
  | '"' => ['\\', '"']
  | '\\' => ['\\', '\\']
  | '\n' => ['\\', 'n']
  | '\r' => ['\\', 'r']
  | '\t' => ['\\', 't']
  | '\x00' => ['\\', '0']
  | c => if isPrintable c then [c] else '\\' :: 'u' :: '\x7b' :: hexDigits c.toNat ++ ['\x7d']

/-- The text between double quotes, with every character in its written form. -/
def quote (s : String) : String :=
  String.ofList ('"' :: s.toList.flatMap escape ++ ['"'])

end XPath.Text
