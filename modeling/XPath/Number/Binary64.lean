/-!
# Doubles as exact integers

Every finite double is, up to its sign, a whole multiple of the least positive double `2⁻¹⁰⁷⁴`, the
*quantum*.  All exact work on doubles is done on that count of quanta, a natural number.

* `magnitude`: the bits of a double without its sign;
* `significand`, `shift`, `quanta`: a finite magnitude is `significand · 2 ^ shift` quanta;
* `nearest`: the magnitude closest to a quotient of quanta, ties to the even significand;
* `ofMagnitude`: the double with a given sign and magnitude;
* `floor`, `ceiling`, `round`: the whole numbers next to a double.
-/

namespace XPath.Number

/-! ### Taking a double apart -/

/-- The magnitude from which on a double is infinite or not a number. -/
def infiniteMagnitude : Nat :=
  0x7FF * Nat.pow 2 52

/-- The bits of a double without the sign bit. -/
def magnitude (x : Float) : Nat :=
  x.toBits.toNat % Nat.pow 2 63

def isNegative (x : Float) : Bool :=
  Nat.pow 2 63 ≤ x.toBits.toNat

/-- The power of two by which the significand of a magnitude is scaled, in quanta. -/
def shift (b : Nat) : Nat :=
  b / Nat.pow 2 52 - 1

/-- The significand of a magnitude, with the implicit leading bit of a normal number. -/
def significand (b : Nat) : Nat :=
  b - shift b * Nat.pow 2 52

/-- How many quanta a finite magnitude is worth. -/
def quanta (b : Nat) : Nat :=
  significand b * Nat.pow 2 (shift b)

/-- The number of quanta in one. -/
def one : Nat :=
  Nat.pow 2 1074

/-! ### Putting a double together -/

/-- The double with the given sign and magnitude. -/
def ofMagnitude (negative : Bool) (b : Nat) : Float :=
  Float.ofBits (UInt64.ofNat (if negative then Nat.pow 2 63 + b else b))

def nan : Float :=
  ofMagnitude false (infiniteMagnitude + Nat.pow 2 51)

/-- The quotient rounded to the nearest natural number, a tie to the even one. -/
def divNearest (n d : Nat) : Nat :=
  let q := n / d
  let r := 2 * (n % d)
  if r < d || (r == d && q % 2 == 0) then q else q + 1

/-- The number of binary digits beyond the fifty-three that a significand holds. -/
def excessBits (n : Nat) : Nat :=
  n.log2 - 52

/-- The magnitude nearest to `n / d` quanta, a tie to the even significand; a quotient beyond the
finite doubles gives the infinite magnitude. -/
def nearest (n d : Nat) : Nat :=
  let s := excessBits (n / d)
  min (s * Nat.pow 2 52 + divNearest n (d * Nat.pow 2 s)) infiniteMagnitude

/-! ### Whole numbers near a double -/

/-- The double that is the given whole number, with the given sign. -/
def ofWhole (negative : Bool) (n : Nat) : Float :=
  ofMagnitude negative (nearest (n * one) 1)

/-- The whole part of a finite double's magnitude. -/
def wholePart (x : Float) : Nat :=
  quanta (magnitude x) / one

def hasFraction (x : Float) : Bool :=
  quanta (magnitude x) % one != 0

/-- The least whole number not below a finite double's magnitude. -/
def wholeAbove (x : Float) : Nat :=
  if hasFraction x then wholePart x + 1 else wholePart x

/-- The greatest whole number not above `x`; zeros keep their sign. -/
def floor (x : Float) : Float :=
  if infiniteMagnitude ≤ magnitude x then x
  else if isNegative x then ofWhole true (wholeAbove x) else ofWhole false (wholePart x)

/-- The least whole number not below `x`; a zero result has the sign of `x`. -/
def ceiling (x : Float) : Float :=
  if infiniteMagnitude ≤ magnitude x then x
  else if isNegative x then ofWhole true (wholePart x) else ofWhole false (wholeAbove x)

/-- The nearest whole number, a half away from zero; whatever lies within a half of zero gives
positive zero. -/
def round (x : Float) : Float :=
  if infiniteMagnitude ≤ magnitude x then x
  else
    let n := quanta (magnitude x)
    if 2 * n ≤ one then ofWhole false 0 else ofWhole (isNegative x) ((2 * n + one) / (2 * one))

end XPath.Number
