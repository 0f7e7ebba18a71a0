import UiSync.Json.Double

/-!
# Shortest decimals

The decimal written for a double is the one with the fewest significant digits among those that
read back as it, and of these the nearest. A decimal reads back as the double when it lies in
the interval of numbers that round to it: half a step to either neighbour, the ends included
when the magnitude is even.

For a number of digits, the two decimals around the double are its only candidates, so
`shortest` asks grid after grid, coarse to fine, whether one of the two lies in the interval.
Seventeen digits are always enough.
-/

namespace UiSync.Json

/-- the decimal `significand · 10^exponent` -/
structure Decimal where
  significand : Nat
  exponent : Int
  deriving DecidableEq

namespace Decimal

/-- the number of decimal digits of `n`, one for 0 -/
def digitCount (n : Nat) : Nat := (Nat.toDigits 10 n).length

/-- drops the zeros at the end of the significand, at most `fuel` of them -/
def normalize : Nat → Decimal → Decimal
  | 0, d => d
  | fuel + 1, d =>
    if d.significand % 10 = 0 ∧ d.significand ≠ 0 then
      normalize fuel ⟨d.significand / 10, d.exponent + 1⟩
    else d

/-- a double in whole multiples of `2^-1076`: its least and greatest neighbours that read back,
itself, and whether the ends count -/
structure Interval where
  low : Nat
  mid : Nat
  high : Nat
  closed : Bool

/-- the interval of numbers that round to a magnitude -/
def interval (magnitude : Nat) : Interval :=
  let (m, q) := Double.parts magnitude
  let below := if m = Double.binade ∧ q ≠ 0 then 1 else 2
  ⟨(4 * m - below) <<< q, (4 * m) <<< q, (4 * m + 2) <<< q, m % 2 = 0⟩

/-- `num / den`, in multiples of `2^-1076`, lies in the interval -/
def Interval.holds (i : Interval) (num den : Nat) : Bool :=
  if i.closed then i.low * den ≤ num && num ≤ i.high * den
  else i.low * den < num && num < i.high * den

/-- the place of the first digit of a positive double, as a power of ten -/
def leadingExponent (i : Interval) : Int :=
  (digitCount ((i.mid * Nat.pow 10 400) >>> 1076) : Int) - 401

/-- the nearest of the two decimals with `digits` digits around the double, if it reads back -/
def candidate? (i : Interval) (digits : Nat) : Option Decimal :=
  let exponent := leadingExponent i - (digits : Int) + 1
  -- one step of the grid is `num / den` multiples of `2^-1076`
  let num := Nat.pow 10 exponent.toNat <<< 1076
  let den := Nat.pow 10 (-exponent).toNat
  let floor := i.mid * den / num
  let low := i.holds (floor * num) den
  let high := i.holds ((floor + 1) * num) den
  let toLow := i.mid * den - floor * num
  let toHigh := (floor + 1) * num - i.mid * den
  let nearLow := toLow < toHigh || (toLow == toHigh && floor % 2 == 0)
  if low && (nearLow || !high) then some ⟨floor, exponent⟩
  else if high then some ⟨floor + 1, exponent⟩
  else none

/-- the shortest decimal of a positive magnitude -/
def shortest (magnitude : Nat) : Decimal :=
  let i := interval magnitude
  match (List.range 17).findSome? fun n => candidate? i (n + 1) with
  | some d => normalize 20 d
  | none => ⟨0, 0⟩

/-! ## Layout -/

/-- how a decimal is written -/
structure Layout where
  /-- the least power of ten of the first digit that is still written out -/
  least : Int
  /-- the greatest power of ten of the first digit that is still written out -/
  greatest : Int

/-- numbers are written out from 0.00001 up to, but not including, 10^16, always with a point;
outside they have an exponent with its sign and no point after a single digit -/
def layout : Layout := ⟨-5, 15⟩

/-- the digits of the significand -/
def digits (d : Decimal) : List Char := Nat.toDigits 10 d.significand

/-- a positive decimal in the given layout -/
def render (l : Layout) (d : Decimal) : List Char :=
  let ds := d.digits
  let lead := d.exponent + ds.length - 1
  if l.least ≤ lead ∧ lead ≤ l.greatest then
    if lead < 0 then
      ['0', '.'] ++ List.replicate (-lead - 1).toNat '0' ++ ds
    else
      let whole := lead.toNat + 1
      let padded := ds ++ List.replicate (whole - ds.length) '0'
      let rest := padded.drop whole
      padded.take whole ++ ['.'] ++ (if rest.isEmpty then ['0'] else rest)
  else
    let sign := if lead < 0 then '-' else '+'
    let mantissa := match ds with
      | [] => []
      | [c] => [c]
      | c :: more => c :: '.' :: more
    mantissa ++ ['e', sign] ++ Nat.toDigits 10 lead.natAbs

end Decimal

/-- the text of a double -/
def Double.text (x : Double) : String :=
  let unsigned :=
    if x.isZero then ['0', '.', '0']
    else Decimal.render Decimal.layout (Decimal.shortest x.magnitude)
  String.ofList (if x.negative then '-' :: unsigned else unsigned)

end UiSync.Json
