import TreeStream.Double.Basic

/-!
# The fewest digits that read back

For a positive double the reals that round to it form an interval whose ends belong to it exactly
if the significand is even. Grids of 1, 2, … 17 significant digits are tried in turn; on each the
two points next to the value are tested, since a grid meets the interval only if one of these two
does. The first grid with a hit gives the digits.
-/

namespace TreeStream
namespace Double

/-- What decides between two points equally near to the value. -/
inductive Tie where
  | up
  | even
  deriving DecidableEq

/-- Decimal digits of a positive number: `digits * 10 ^ power`. -/
structure Digits where
  digits : Nat
  power : Int
  deriving DecidableEq

/-- The interval of a double in quarters of a unit: its ends, the value, and whether the ends
belong to it. -/
structure Interval where
  low : Nat
  value : Nat
  high : Nat
  closed : Bool

/-- Below a power of two the next double is half as far away as above it. -/
def interval (exponent : Fin 2047) (fraction : Fin fractions) : Interval :=
  let c := significand exponent fraction
  let q := 1 <<< scale exponent
  let below := if fraction.val = 0 ∧ 1 < exponent.val then q else 2 * q
  { low := 4 * c * q - below
    value := 4 * c * q
    high := 4 * c * q + 2 * q
    closed := c % 2 == 0 }

/-- `num / den` compared with the interval, all in quarters of a unit. -/
def Interval.contains (i : Interval) (num den : Nat) : Bool :=
  if i.closed then i.low * den ≤ num && num ≤ i.high * den
  else i.low * den < num && num < i.high * den

/-- The quarters of a unit in `10 ^ power`, as a quotient. -/
def gridStep (power : Int) : Nat × Nat :=
  let quarters := 4 * one
  if 0 ≤ power then (Nat.pow 10 power.toNat * quarters, 1) else (quarters, Nat.pow 10 (-power).toNat)

/-- The better of the two points of the grid `10 ^ power` next to the value, if one of them is in
the interval. -/
def nearestOnGrid? (tie : Tie) (i : Interval) (power : Int) : Option Nat :=
  let (num, den) := gridStep power
  let down := i.value * den / num
  let rest := i.value * den % num
  let lowHit := 0 < down && i.contains (down * num) den
  let highHit := i.contains ((down + 1) * num) den
  let preferHigh : Bool :=
    if 2 * rest = num then (tie == .up || down % 2 == 1) else decide (num < 2 * rest)
  match lowHit, highHit with
  | true, true => some (if preferHigh then down + 1 else down)
  | true, false => some down
  | false, true => some (down + 1)
  | false, false => none

/-- The decimal exponent of a positive value: `10 ^ e ≤ num / den < 10 ^ (e + 1)`, found by
counting the digits of the integer part or the zeros behind the point. -/
def decimalExponent (num den : Nat) : Int :=
  if den ≤ num then ((Nat.toDigits 10 (num / den)).length : Int) - 1
  else -((Nat.toDigits 10 ((den - 1) / num)).length : Int)

/-- The first grid with a hit, from `digits` significant digits on. -/
def shortestFrom (tie : Tie) (i : Interval) (exponent : Int) : Nat → Nat → Digits
  | 0, digits => ⟨0, digits⟩
  | fuel + 1, digits =>
    let power := exponent + 1 - digits
    match nearestOnGrid? tie i power with
    | some n => ⟨n, power⟩
    | none => shortestFrom tie i exponent fuel (digits + 1)

/-- Digits without the zeros at their end. -/
def Digits.trim : Nat → Digits → Digits
  | 0, d => d
  | fuel + 1, d => if d.digits % 10 = 0 ∧ 0 < d.digits then
      Digits.trim fuel ⟨d.digits / 10, d.power + 1⟩ else d

/-- The shortest digits of the magnitude of a finite double that is not zero. -/
def shortest (tie : Tie) : Double → Digits
  | x@(finite _ e f) =>
    let start := decimalExponent x.units one
    (shortestFrom tie (interval e f) start 18 1).trim 20
  | _ => ⟨0, 0⟩

end Double
end TreeStream
