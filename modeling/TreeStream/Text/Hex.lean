/-!
# Hexadecimal digits

The value of a digit of either case, and of a sequence of digits after a number read so far.
-/

namespace TreeStream
namespace Text

/-- The value of a hexadecimal digit of either case. -/
def hexDigit? (c : Char) : Option Nat :=
  if '0' ≤ c ∧ c ≤ '9' then some (c.toNat - '0'.toNat)
  else if 'a' ≤ c ∧ c ≤ 'f' then some (c.toNat - 'a'.toNat + 10)
  else if 'A' ≤ c ∧ c ≤ 'F' then some (c.toNat - 'A'.toNat + 10)
  else none

/-- The number that hexadecimal digits spell after `n`. -/
def hexValue? (n : Nat) : List Char → Option Nat
  | [] => some n
  | c :: cs => (hexDigit? c).bind fun d => hexValue? (16 * n + d) cs

theorem hexDigit?_digitChar : ∀ n < 16, hexDigit? (Nat.digitChar n) = some n := by
  decide

theorem hexValue?_append (n : Nat) (cs cs' : List Char) :
    hexValue? n (cs ++ cs') = (hexValue? n cs).bind fun m => hexValue? m cs' := by
  induction cs generalizing n with
  | nil => rfl
  | cons c cs ih => simp only [List.cons_append, hexValue?, ih, Option.bind_assoc]

theorem hexValue?_toDigits (n : Nat) : hexValue? 0 (Nat.toDigits 16 n) = some n := by
  induction n using Nat.strongRecOn with
  | ind n ih =>
    have hdigit := hexDigit?_digitChar (n % 16) (Nat.mod_lt n (by decide))
    by_cases hn : n < 16
    · rw [Nat.toDigits_of_lt_base hn, ← Nat.mod_eq_of_lt hn]
      simp [hexValue?, hdigit]
    · rw [Nat.toDigits_of_base_le (by decide) (by omega), hexValue?_append, ih _ (by omega)]
      simp only [hexValue?, Option.bind_some, hdigit, Option.some.injEq]
      omega

end Text
end TreeStream
