import XPath.Number.Binary64

/-!
# The shortest decimal of a double

A decimal *reads back* as a double when the double is the nearest one to it.  Among the decimals
that read back, `shortest` chooses one with the fewest digits, and of those the nearest.

* `Decimal`: a coefficient and a power of ten, counted from `10⁻³⁴⁰`;
* `Interval`: the decimals that read back as a magnitude, in exact integers;
* `Interval.hit`: the best candidate on one decimal grid;
* `shortest`: the first hit, from the coarsest grid to the finest.

The step from the grid to "no shorter": if any point of a grid lies in the interval, so does one of
the two points next to the value itself.
-/

namespace XPath.Number

/-- The decimal `coefficient · 10 ^ power · 10⁻³⁴⁰`. -/
structure Decimal where
  /-- The significant digits. -/
  coefficient : Nat
  /-- The power of ten, counted from `10⁻³⁴⁰`. -/
  power : Nat
  deriving DecidableEq, Inhabited

/-- How many fractional digits the finest grid has; the least double needs 324. -/
def finest : Nat :=
  340

/-- Which candidate wins when two shortest decimals are equally near. -/
inductive Tie
  | up
  | even
  deriving DecidableEq

/-- The decimals that read back as a magnitude, each number being a multiple of
`10⁻³⁴⁰ · 2⁻¹⁰⁷⁶`. -/
structure Interval where
  /-- The value itself. -/
  value : Nat
  /-- Half way to the next smaller double. -/
  low : Nat
  /-- Half way to the next greater double. -/
  high : Nat
  /-- Whether the ends read back as the value too. -/
  closed : Bool

/-- The interval around a finite magnitude; below a power of two the gap is half as wide. -/
def Interval.ofMagnitude (b : Nat) : Interval :=
  let m := significand b
  let unit := Nat.pow 2 (shift b) * Nat.pow 10 finest
  let below := if m == Nat.pow 2 52 && shift b != 0 then 1 else 2
  -- in quarters of a unit, so that half of the smaller gap is whole
  ⟨4 * m * unit, (4 * m - below) * unit, (4 * m + 2) * unit, m % 2 == 0⟩

def Interval.holds (i : Interval) (n : Nat) : Bool :=
  if i.closed then i.low ≤ n && n ≤ i.high else i.low < n && n < i.high

/-- The distance between two points of the grid of `10 ^ power`. -/
def gridStep (power : Nat) : Nat :=
  Nat.pow 10 power * (4 * one)

/-- The nearer of the value's two neighbours on a grid, among those in the interval. -/
def Interval.hit (tie : Tie) (i : Interval) (power : Nat) : Option Nat :=
  let step := gridStep power
  let c := i.value / step
  match i.holds (c * step), i.holds ((c + 1) * step) with
  | true, false => some c
  | false, true => some (c + 1)
  | false, false => none
  | true, true =>
    let r := 2 * (i.value % step)
    if r < step then some c
    else if step < r then some (c + 1)
    else if tie = .even ∧ c % 2 = 0 then some c else some (c + 1)

/-- The first hit, from the grid of `10 ^ power` to the finest one. -/
def Interval.search (tie : Tie) (i : Interval) : Nat → Decimal
  | 0 => ⟨i.value / gridStep 0, 0⟩
  | power + 1 =>
    match i.hit tie (power + 1) with
    | some c => ⟨c, power + 1⟩
    | none => i.search tie power

def digitCount (n : Nat) : Nat :=
  (Nat.toDigits 10 n).length

/-- The same decimal without zeros at the end of its coefficient. -/
def Decimal.strip (d : Decimal) : Decimal :=
  if h : d.coefficient ≠ 0 ∧ d.coefficient % 10 = 0 then
    Decimal.strip ⟨d.coefficient / 10, d.power + 1⟩
  else d
termination_by d.coefficient
decreasing_by omega

/-- The shortest decimal that reads back as a finite magnitude other than zero. -/
def shortest (tie : Tie) (b : Nat) : Decimal :=
  let i := Interval.ofMagnitude b
  (i.search tie (digitCount (i.value / gridStep 0) - 1)).strip

end XPath.Number
