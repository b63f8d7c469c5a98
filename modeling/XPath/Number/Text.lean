import XPath.Number.Shortest
import XPath.Text.Blank

/-!
# Numbers as texts

A number is written as an optional minus sign followed by digits with at most one point among,
before or after them.  There is no exponent.

* `ofUnsigned?`: reads digits and a point;
* `ofSigned?`: allows a minus sign in front;
* `ofText`: reads a whole text, white space around it apart; any other text is not a number;
* `toText`: writes the shortest decimal that reads back.
-/

namespace XPath.Number

/-! ### Reading -/

/-- The number written by a run of digits. -/
def ofDigits (cs : List Char) : Nat :=
  cs.foldl (fun n c => 10 * n + (c.toNat - '0'.toNat)) 0

/-- The magnitude nearest to the digits with a point before the last `places` of them. -/
def magnitudeOfDigits (digits : List Char) (places : Nat) : Nat :=
  nearest (ofDigits digits * one) (Nat.pow 10 places)

/-- The whole digits and the fractional digits of `digits`, `digits.`, `.digits` or
`digits.digits`. -/
def splitPoint? (cs : List Char) : Option (List Char × List Char) :=
  let whole := cs.takeWhile Char.isDigit
  match cs.dropWhile Char.isDigit with
  | [] => if whole.isEmpty then none else some (whole, [])
  | '.' :: fraction =>
    if fraction.all Char.isDigit && !(whole.isEmpty && fraction.isEmpty) then some (whole, fraction)
    else none
  | _ => none

/-- The double nearest to digits with at most one point. -/
def ofUnsigned? (negative : Bool) (cs : List Char) : Option Float :=
  (splitPoint? cs).map fun (whole, fraction) =>
    ofMagnitude negative (magnitudeOfDigits (whole ++ fraction) fraction.length)

/-- The double nearest to digits with at most one point, after an optional minus sign. -/
def ofSigned? : List Char → Option Float
  | '-' :: cs => ofUnsigned? true cs
  | cs => ofUnsigned? false cs

/-- The number that a text stands for, or not a number. -/
def ofText (s : String) : Float :=
  (ofSigned? (Text.trim s.toList)).getD nan

/-! ### Writing -/

def Decimal.positional (d : Decimal) : List Char :=
  let digits := Nat.toDigits 10 d.coefficient
  if finest ≤ d.power then digits ++ List.replicate (d.power - finest) '0'
  else
    let places := finest - d.power
    if places < digits.length then
      digits.take (digits.length - places) ++ '.' :: digits.drop (digits.length - places)
    else '0' :: '.' :: List.replicate (places - digits.length) '0' ++ digits

/-- The text of a number: the shortest decimal that reads back, without an exponent; both zeros are
written alike. -/
def toText (x : Float) : String :=
  let b := magnitude x
  if infiniteMagnitude < b then "NaN"
  else if b = 0 then "0"
  else
    let digits := if b = infiniteMagnitude then "Infinity".toList else (shortest .up b).positional
    String.ofList (if isNegative x then '-' :: digits else digits)

end XPath.Number
