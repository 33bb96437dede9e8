import TreeStream.Double.Shortest

/-!
# Written forms of a double

The digits are the shortest ones; a layout says where positional writing ends and how the rest
looks. Three layouts are in use: one for numbers in rows, one for previews inside error messages,
one for the inspection text of a model.
-/

namespace TreeStream
namespace Double

/-- The decisions of one written form. The *point* of a number is the count of its digits before
the decimal point; it is negative or zero for a number below one tenth or one. -/
structure Layout where
  tie : Tie
  /-- Numbers whose point is not above this are written with an exponent. -/
  pointAbove : Option Int
  /-- Numbers whose point is above this are written with an exponent. -/
  pointUpTo : Option Int
  /-- Whole numbers keep a fraction of one zero. -/
  keepsFraction : Bool
  /-- A positive exponent has a plus sign. -/
  plusSign : Bool

/-- Numbers in rows: `0.00001` but `1e-6`, `1e+21`. -/
def Layout.row : Layout := ⟨.even, some (-5), some 16, true, true⟩

/-- Numbers in previews never have an exponent. -/
def Layout.preview : Layout := ⟨.up, none, none, false, false⟩

/-- Numbers in inspection texts: `1.0`, `1e16`, `1e-5`. -/
def Layout.inspection : Layout := ⟨.up, some (-4), some 16, true, false⟩

def Layout.isPositional (l : Layout) (point : Int) : Bool :=
  l.pointAbove.all (· < point) && l.pointUpTo.all (point ≤ ·)

/-- Digits with the point among them, before them or behind them. -/
def positional (keepsFraction : Bool) (digits : List Char) (point : Int) : List Char :=
  if point ≤ 0 then '0' :: '.' :: List.replicate (-point).toNat '0' ++ digits
  else
    let n := point.toNat
    if digits.length ≤ n then
      digits ++ List.replicate (n - digits.length) '0' ++
        (if keepsFraction then ['.', '0'] else [])
    else digits.take n ++ '.' :: digits.drop n

/-- One digit, the others as its fraction, and the exponent. -/
def scientific (plusSign : Bool) (digits : List Char) (exponent : Int) : List Char :=
  let sign := if exponent < 0 then ['-'] else if plusSign then ['+'] else []
  let fraction := match digits.drop 1 with
    | [] => []
    | ds => '.' :: ds
  digits.take 1 ++ fraction ++ 'e' :: sign ++ Nat.toDigits 10 exponent.natAbs

/-- The written form of the magnitude of a finite double. -/
def Layout.magnitude (l : Layout) (x : Double) : List Char :=
  let d := if x.units = 0 then ⟨0, 0⟩ else shortest l.tie x
  let digits := Nat.toDigits 10 d.digits
  let point := digits.length + d.power
  if l.isPositional point then positional l.keepsFraction digits point
  else scientific l.plusSign digits (point - 1)

def Layout.chars (l : Layout) : Double → List Char
  | nan => ['N', 'a', 'N']
  | infinite s => (if s then ['-'] else []) ++ ['i', 'n', 'f']
  | x@(finite s _ _) => (if s then ['-'] else []) ++ l.magnitude x

def Layout.text (l : Layout) (x : Double) : String := String.ofList (l.chars x)

end Double
end TreeStream
