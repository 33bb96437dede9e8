import TreeStream.Double.Basic

/-!
# Doubles from decimal digits

`ofDecimal` is the nearest double of a decimal number. `ofScaledSignificand?` is the looser rule
of the JSON reader: the digits first become a whole number below `2 ^ 64`, then one product or
quotient with a power of ten, itself a double, follows. Both roundings are to the nearest double,
but two of them in a row may end one step beside the nearest double of the whole text.
-/

namespace TreeStream
namespace Double

/-- The double nearest to `digits * 10 ^ power`. Past `10 ^ 400` or below `10 ^ -400` nothing but
the sign of the exponent matters. -/
def ofDecimal (negative : Bool) (digits : Nat) (power : Int) : Double :=
  let point := (Nat.toDigits 10 digits).length + power
  if digits = 0 ∨ point < -400 then zeroOf negative
  else if 400 < point then infinite negative
  else if 0 ≤ power then ofRatio negative (digits * Nat.pow 10 power.toNat) 1
  else ofRatio negative digits (Nat.pow 10 (-power).toNat)

def digitsValue (cs : List Char) : Nat :=
  cs.foldl (fun n c => 10 * n + (c.toNat - '0'.toNat)) 0

/-- An exponent: a sign or none, and at least one digit. -/
def exponentOf? (cs : List Char) : Option Int :=
  let negative := cs.head? == some '-'
  let digits := if negative || cs.head? == some '+' then cs.drop 1 else cs
  if digits.isEmpty || !digits.all Char.isDigit then none
  else some (if negative then -(digitsValue digits : Int) else digitsValue digits)

/-- The double nearest to a decimal number: digits with a point anywhere and an exponent. -/
def ofDecimalChars? (negative : Bool) (cs : List Char) : Option Double :=
  let whole := cs.takeWhile Char.isDigit
  let rest := cs.dropWhile Char.isDigit
  let hasPoint := rest.head? == some '.'
  let behind := if hasPoint then rest.drop 1 else rest
  let fraction := if hasPoint then behind.takeWhile Char.isDigit else []
  let rest := if hasPoint then behind.dropWhile Char.isDigit else behind
  if whole.isEmpty && fraction.isEmpty then none
  else
    let exponent? := match rest with
      | [] => some 0
      | c :: r => if c = 'e' ∨ c = 'E' then exponentOf? r else none
    exponent?.map fun e =>
      ofDecimal negative (digitsValue (whole ++ fraction)) (e - fraction.length)

/-- The double that a text names: a decimal number, an infinity or the not-a-number, the latter two
in letters of either case. -/
def ofText? (s : String) : Option Double :=
  let cs := s.toList
  let negative := cs.head? == some '-'
  let body := if negative || cs.head? == some '+' then cs.drop 1 else cs
  let word := String.ofList (body.map Char.toLower)
  if word = "inf" ∨ word = "infinity" then some (infinite negative)
  else if word = "nan" then some nan
  else ofDecimalChars? negative body

/-- The double nearest to a power of ten. -/
def powerOfTen (n : Nat) : Double := ofNat (Nat.pow 10 n)

/-- Largest power of ten below infinity. -/
def greatestPower : Nat := 308

/-- Divides by the greatest power of ten as long as the exponent is below its negative; once the
number is zero, further quotients change nothing. -/
def lower : Nat → Double → Nat → Double
  | 0, x, _ => x
  | fuel + 1, x, n =>
    if n ≤ greatestPower then x.div (powerOfTen n)
    else if x.units = 0 then x
    else lower fuel (x.div (powerOfTen greatestPower)) (n - greatestPower)

/-- `significand * 10 ^ power` for a significand below `2 ^ 64`, with a rounding after each step;
nothing if the magnitude is past the largest double. -/
def ofScaledSignificand? (negative : Bool) (significand : Nat) (power : Int) : Option Double :=
  let x := ofNat significand
  let magnitude :=
    if 0 ≤ power then
      if power.toNat ≤ greatestPower then
        let y := x.mul (powerOfTen power.toNat)
        if y.isFinite then some y else none
      else if significand = 0 then some x else none
    else some (lower 8 x (-power).toNat)
  magnitude.map fun y => if negative then y.neg else y

end Double
end TreeStream
