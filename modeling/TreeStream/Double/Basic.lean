/-!
# Binary64 values by their fields

A double is kept as its sign, exponent field and fraction field, with one value for all
not-a-numbers, so two doubles are the same value exactly if they are equal. The magnitude of a
finite double is a whole number of units of `2 ^ -1074`, the smallest positive double; every
comparison and every rounding below is arithmetic on that whole number, never on machine words.
-/

namespace TreeStream

/-- How many values a fraction field of 52 bits has. -/
abbrev Double.fractions : Nat := 4503599627370496

/-- A binary64 value. -/
inductive Double where
  | nan
  | infinite (negative : Bool)
  | finite (negative : Bool) (exponent : Fin 2047) (fraction : Fin Double.fractions)
  deriving DecidableEq

namespace Double

/-- How many halvings of one make a unit. -/
def unitPlaces : Nat := 1074

/-- The units in one. -/
def one : Nat := 1 <<< unitPlaces

/-- The fraction field with the leading bit that normal numbers leave out. -/
def significand (exponent : Fin 2047) (fraction : Fin fractions) : Nat :=
  if exponent.val = 0 then fraction.val else fractions + fraction.val

/-- The spacing of the doubles of one exponent is `2 ^ scale` units. -/
def scale (exponent : Fin 2047) : Nat := exponent.val - 1

/-- The magnitude of a finite double in units. -/
def units : Double → Nat
  | finite _ e f => significand e f <<< scale e
  | _ => 0

def isNegative : Double → Bool
  | nan => false
  | infinite s => s
  | finite s _ _ => s

def isFinite : Double → Bool
  | finite _ _ _ => true
  | _ => false

/-- The value as an integer, if it is one. -/
def toInt? : Double → Option Int
  | x@(finite s _ _) =>
    if x.units % one = 0 then
      let n := x.units / one
      some (if s then -(n : Int) else n)
    else none
  | _ => none

/-- The zero of this sign. -/
def zeroOf (negative : Bool) : Double := finite negative 0 0

def zero : Double := zeroOf false

/-- The same magnitude with the other sign. -/
def neg : Double → Double
  | nan => nan
  | infinite s => infinite (!s)
  | finite s e f => finite (!s) e f

/-- `num / den` to the nearest whole number, a tie going to the even one. -/
def roundHalfEven (num den : Nat) : Nat :=
  let q := num / den
  let r := num % den
  if 2 * r < den then q else if den < 2 * r then q + 1 else q + q % 2

/-- The double of `c * 2 ^ k` units, where `c` has at most 53 bits or is `2 ^ 53`, and has fewer
than 53 bits only if `k` is zero. A magnitude past the largest finite one is infinite. -/
def ofScaled (negative : Bool) (c k : Nat) : Double :=
  if c < fractions then finite negative 0 (Fin.ofNat _ c)
  else
    let e := if c = 2 * fractions then k + 2 else k + 1
    let f := if c = 2 * fractions then 0 else c - fractions
    if h : e < 2047 then finite negative ⟨e, h⟩ (Fin.ofNat _ f) else infinite negative

/-- The double nearest to `num / den`, a tie going to the even significand. -/
def ofRatio (negative : Bool) (num den : Nat) : Double :=
  let k := (num * one / den).log2 - 52
  ofScaled negative (roundHalfEven (num * one) (den <<< k)) k

def ofNat (n : Nat) : Double := ofRatio false n 1

def ofInt (i : Int) : Double := ofRatio (decide (i < 0)) i.natAbs 1

/-- The product of two finite doubles, rounded once. -/
def mul (x y : Double) : Double :=
  ofRatio (x.isNegative != y.isNegative) (x.units * y.units) (one * one)

/-- The quotient of two finite doubles, rounded once; the divisor is not zero. -/
def div (x y : Double) : Double :=
  ofRatio (x.isNegative != y.isNegative) x.units y.units

/-- The interchange pattern of 64 bits; the not-a-number gets its quiet positive pattern. -/
def toBits : Double → Nat
  | nan => 0x7ff8000000000000
  | infinite s => s.toNat <<< 63 + 2047 <<< 52
  | finite s e f => s.toNat <<< 63 + e.val <<< 52 + f.val

theorem neg_neg (x : Double) : x.neg.neg = x := by
  cases x <;> simp [neg]

theorem units_neg (x : Double) : x.neg.units = x.units := by
  cases x <;> rfl

theorem isFinite_ofInt_zero : ofInt 0 = zero := by decide +kernel

end Double
end TreeStream
