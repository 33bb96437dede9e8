import Mathlib.Algebra.Order.Field.Rat
import Mathlib.Data.Nat.Cast.Field
import Mathlib.Tactic.FieldSimp
import Mathlib.Tactic.Positivity
import TreeStream.Proofs.Decimals
import TreeStream.Serializer.Basic

/-!
# Numbers keep their value

A number of a model and the number that is written for it are the same rational number. It is
written as an integer if it is whole and a word of 64 bits holds it, and then the cast to such a
word neither cuts a fraction off nor stops at a bound. One whole number of that range is left out:
the least signed one, `- 2 ^ 63` (`least_has_fraction`).
-/

namespace TreeStream
namespace Double

/-- The value of a finite double. -/
def value (d : Double) : ℚ := (if d.isNegative then -1 else 1) * (d.units / one)

/-- The value without its fraction. -/
def truncated (d : Double) : ℤ :=
  if d.isNegative then -((d.units / one : ℕ) : ℤ) else ((d.units / one : ℕ) : ℤ)

/-- What a cast to the integers from `low` to `high` gives: the fraction is cut off, and a value out
of range stops at the bound. -/
def cast (low high : ℤ) (d : Double) : ℤ := max low (min high d.truncated)

theorem abs_value (d : Double) : |d.value| = d.units / one := by
  have hnonneg : (0 : ℚ) ≤ d.units / one := by positivity
  unfold value
  split <;> simp [abs_of_nonneg hnonneg]

theorem toInt?_eq_none {d : Double} (h : d.units % one ≠ 0) : d.toInt? = none := by
  cases d with
  | nan => rfl
  | infinite _ => rfl
  | finite s e f => exact if_neg h

theorem toInt?_eq_truncated {d : Double} (hd : d.isFinite = true) (h : d.units % one = 0) :
    d.toInt? = some d.truncated := by
  cases d with
  | nan => cases hd
  | infinite _ => cases hd
  | finite s e f => exact if_pos h

theorem value_eq_truncated {d : Double} (h : d.units % one = 0) : d.value = d.truncated := by
  have hone : (one : ℚ) ≠ 0 := Nat.cast_ne_zero.mpr one_pos.ne'
  have hdiv : (d.units : ℚ) / one = (d.units / one : ℕ) :=
    (Nat.cast_div (Nat.dvd_of_mod_eq_zero h) hone).symm
  unfold value truncated
  rw [hdiv]
  split <;> simp only [Int.cast_neg, Int.cast_natCast, neg_mul, one_mul]

/-- The integer of a double is its value, and only a whole value has one. -/
theorem toInt?_eq_some_iff {d : Double} (hd : d.isFinite = true) {i : ℤ} :
    d.toInt? = some i ↔ d.value = i := by
  by_cases hwhole : d.units % one = 0
  · rw [toInt?_eq_truncated hd hwhole, value_eq_truncated hwhole]
    simp
  · rw [toInt?_eq_none hwhole]
    refine iff_of_false nofun fun hvalue => hwhole ?_
    have hone : (one : ℚ) ≠ 0 := Nat.cast_ne_zero.mpr one_pos.ne'
    have habs : (d.units : ℚ) / one = (i.natAbs : ℕ) := by
      rw [← abs_value, hvalue, Nat.cast_natAbs, Int.cast_abs]
    have hunits : d.units = i.natAbs * one := by
      rw [div_eq_iff hone] at habs
      exact_mod_cast habs
    rw [hunits, Nat.mul_mod_left]

/-- A cast to a range that holds the value changes nothing. -/
theorem cast_eq {d : Double} {i low high : ℤ} (hd : d.isFinite = true) (h : d.toInt? = some i)
    (hlow : low ≤ i) (hhigh : i ≤ high) : d.cast low high = i := by
  have hwhole : d.units % one = 0 := by
    by_contra hnone
    rw [toInt?_eq_none hnone] at h
    cases h
  obtain rfl : d.truncated = i := Option.some.inj ((toInt?_eq_truncated hd hwhole).symm.trans h)
  rw [cast, min_eq_right hhigh, max_eq_right hlow]

theorem Same.value_eq {x y : Double} (h : x.Same y) : x.value = y.value := by
  obtain ⟨-, -, rfl | ⟨hx, hy⟩⟩ := h
  · rfl
  · simp [value, hx, hy]

end Double

def JsonNumber.value : JsonNumber → ℚ
  | .int i => i
  | .float d => d.value

/-- A number is written without a fraction and without an exponent. -/
def JsonNumber.IsPlain (n : JsonNumber) : Prop :=
  '.' ∉ Json.numberChars n ∧ 'e' ∉ Json.numberChars n

theorem JsonNumber.isPlain_int (i : ℤ) : (JsonNumber.int i).IsPlain := by
  have hdigits : ∀ c ∈ Nat.toDigits 10 i.natAbs, c.isDigit = true :=
    fun c hc => Nat.isDigit_of_mem_toDigits (by decide) (by decide) hc
  have hchars : ∀ c ∈ Json.intChars i, c = '-' ∨ c.isDigit = true := by
    intro c hc
    rcases List.mem_append.mp hc with hsign | hdigit
    · split at hsign
      · exact .inl (List.mem_singleton.mp hsign)
      · cases hsign
    · exact .inr (hdigits c hdigit)
  constructor
  · intro h
    exact absurd (hchars '.' h) (by decide)
  · intro h
    exact absurd (hchars 'e' h) (by decide)

theorem point_mem_positional (digits : List Char) (point : ℤ) :
    '.' ∈ Double.positional true digits point := by
  unfold Double.positional
  dsimp only
  split
  · simp
  · split <;> simp

theorem exponent_mem_scientific (plusSign : Bool) (digits : List Char) (exponent : ℤ) :
    'e' ∈ Double.scientific plusSign digits exponent := by
  simp [Double.scientific]

/-- A double always shows that it is one, by its fraction or by its exponent. -/
theorem JsonNumber.not_isPlain_float {d : Double} (hd : d.isFinite = true) :
    ¬ (JsonNumber.float d).IsPlain := by
  have hmagnitude : '.' ∈ Double.Layout.row.magnitude d ∨ 'e' ∈ Double.Layout.row.magnitude d := by
    unfold Double.Layout.magnitude
    generalize (if d.units = 0 then _ else _) = digits
    dsimp only
    split
    · exact .inl (point_mem_positional _ _)
    · exact .inr (exponent_mem_scientific _ _ _)
  have hchars : ∀ c ∈ Double.Layout.row.magnitude d, c ∈ Json.numberChars (.float d) := by
    intro c hc
    cases d with
    | nan => cases hd
    | infinite _ => cases hd
    | finite s e f =>
      simp only [Json.numberChars, hd, if_true]
      exact List.mem_append_right _ hc
  rintro ⟨hpoint, hexponent⟩
  rcases hmagnitude with h | h
  · exact hpoint (hchars _ h)
  · exact hexponent (hchars _ h)

namespace Serializer

/-- The integers that numbers are written as. -/
def IsHeld (i : ℤ) : Prop := -2 ^ 63 < i ∧ i < 2 ^ 64

instance : DecidablePred IsHeld := fun _ => inferInstanceAs (Decidable (_ ∧ _))

theorem ofNumber_of_held {d : Double} {i : ℤ} (hd : d.isFinite = true) (h : d.toInt? = some i)
    (hi : IsHeld i) : ofNumber d = .number (.int i) := by
  have hword : (UInt64.size : ℤ) = 2 ^ 64 := by norm_num [UInt64.size]
  obtain ⟨hlow, hhigh⟩ := hi
  unfold ofNumber
  simp only [hd, h, if_true]
  split
  · rfl
  · rename_i hlarge
    have : (1 <<< 63 : ℕ) = 2 ^ 63 := rfl
    rw [if_pos]
    simp only [Bool.and_eq_true, decide_eq_true_eq]
    omega

theorem ofNumber_of_not_held {d : Double} {i : ℤ} (hd : d.isFinite = true) (h : d.toInt? = some i)
    (hi : ¬ IsHeld i) : ofNumber d = .number (.float d) := by
  have hword : (UInt64.size : ℤ) = 2 ^ 64 := by norm_num [UInt64.size]
  have hshift : (1 <<< 63 : ℕ) = 2 ^ 63 := rfl
  unfold IsHeld at hi
  unfold ofNumber
  simp only [hd, h, if_true]
  rw [if_neg (by omega), if_neg]
  simp only [Bool.and_eq_true, decide_eq_true_eq]
  omega

theorem ofNumber_of_fraction {d : Double} (hd : d.isFinite = true) (h : d.toInt? = none) :
    ofNumber d = .number (.float d) := by
  simp [ofNumber, hd, h]

theorem ofNumber_cases {d : Double} (hd : d.isFinite = true) :
    (∃ i, d.toInt? = some i ∧ IsHeld i ∧ ofNumber d = .number (.int i)) ∨
      (∀ i, d.toInt? = some i → ¬ IsHeld i) ∧ ofNumber d = .number (.float d) := by
  cases hint : d.toInt? with
  | none => exact .inr ⟨nofun, ofNumber_of_fraction hd hint⟩
  | some i =>
    by_cases hi : IsHeld i
    · exact .inl ⟨i, rfl, hi, ofNumber_of_held hd hint hi⟩
    · refine .inr ⟨?_, ofNumber_of_not_held hd hint hi⟩
      intro j hj
      obtain rfl := Option.some.inj hj
      exact hi

theorem held_iff {d : Double} (hd : d.isFinite = true) :
    (∃ i, d.toInt? = some i ∧ IsHeld i) ↔
      (∃ i : ℤ, d.value = i) ∧ -2 ^ 63 < d.value ∧ d.value < 2 ^ 64 := by
  have hrange : ∀ i : ℤ, d.value = i → (IsHeld i ↔ -2 ^ 63 < d.value ∧ d.value < 2 ^ 64) := by
    intro i hi
    rw [hi, IsHeld]
    norm_cast
  constructor
  · rintro ⟨i, hi, hheld⟩
    have hvalue := (Double.toInt?_eq_some_iff hd).mp hi
    exact ⟨⟨i, hvalue⟩, (hrange i hvalue).mp hheld⟩
  · rintro ⟨⟨i, hvalue⟩, hbounds⟩
    exact ⟨i, (Double.toInt?_eq_some_iff hd).mpr hvalue, (hrange i hvalue).mpr hbounds⟩

/-- A finite double is written as a number of the same value. It is an integer, and shows neither
fraction nor exponent, exactly if it is whole and lies above `- 2 ^ 63` and below `2 ^ 64`; it is
then what the cast to a signed word gives below `2 ^ 63`, and the cast to an unsigned word from there
on. Its text reads as the double again. What is not finite is written as null. -/
theorem ofNumber_exact (d : Double) :
    (d.isFinite = false → ofNumber d = .null) ∧
    (d.isFinite = true → ∃ n, ofNumber d = .number n ∧ n.value = d.value ∧
      ((∃ i, n = .int i) ↔
        (∃ i : ℤ, d.value = i) ∧ -2 ^ 63 < d.value ∧ d.value < 2 ^ 64) ∧
      ((∃ i, n = .int i) ↔ n.IsPlain) ∧
      (∀ i, n = .int i →
        i = if i < 2 ^ 63 then d.cast (-2 ^ 63) (2 ^ 63 - 1) else d.cast 0 (2 ^ 64 - 1)) ∧
      ∃ d', Double.ofText? (String.ofList (Json.numberChars n)) = some d' ∧ d'.Same d ∧
        d'.value = d.value) := by
  constructor
  · intro hd
    simp [ofNumber, hd]
  intro hd
  rcases ofNumber_cases hd with ⟨i, hint, hheld, hnumber⟩ | ⟨hnone, hnumber⟩
  · refine ⟨.int i, hnumber, ?_, ?_, ?_, ?_, ?_⟩
    · exact ((Double.toInt?_eq_some_iff hd).mp hint).symm
    · exact iff_of_true ⟨i, rfl⟩ ((held_iff hd).mp ⟨i, hint, hheld⟩)
    · exact iff_of_true ⟨i, rfl⟩ (JsonNumber.isPlain_int i)
    · intro j hj
      obtain rfl := JsonNumber.int.inj hj
      obtain ⟨hlow, hhigh⟩ := hheld
      split
      · exact (Double.cast_eq hd hint hlow.le (by omega)).symm
      · exact (Double.cast_eq hd hint (by omega) (by omega)).symm
    · have hword : i.natAbs < UInt64.size := by
        obtain ⟨hlow, hhigh⟩ := hheld
        have : (UInt64.size : ℤ) = 2 ^ 64 := by norm_num [UInt64.size]
        omega
      have hsame : (Double.ofInt i).Same d := Double.ofInt_same hint
      exact ⟨Double.ofInt i, Double.ofText?_intChars hword, hsame, hsame.value_eq⟩
  · have hfloat : ¬ ∃ i, JsonNumber.float d = .int i := by
      rintro ⟨i, hi⟩
      cases hi
    refine ⟨.float d, hnumber, rfl, ?_, ?_, nofun, ?_⟩
    · refine iff_of_false hfloat fun hbounds => ?_
      obtain ⟨i, hint, hheld⟩ := (held_iff hd).mpr hbounds
      exact hnone i hint hheld
    · exact iff_of_false hfloat (JsonNumber.not_isPlain_float hd)
    · refine ⟨d, ?_, .of_eq hd rfl, rfl⟩
      cases d with
      | nan => cases hd
      | infinite _ => cases hd
      | finite s e f =>
        simp only [Json.numberChars, hd, if_true]
        exact Double.ofText?_text .row s e f

example : (ofNumber (Double.zeroOf true)).text = "0" := by decide +kernel

def leastWord : Double := .ofInt (-9223372036854775808)

/-- The least integer of a signed word is written with a fraction and an exponent. -/
theorem least_has_fraction :
    leastWord.toInt? = some (-2 ^ 63) ∧ leastWord.value = -2 ^ 63 ∧
      ofNumber leastWord = .number (.float leastWord) ∧
      (ofNumber leastWord).text = "-9.223372036854776e+18" := by
  have hfinite : leastWord.isFinite = true := by decide +kernel
  have hint : leastWord.toInt? = some (-2 ^ 63) := by decide +kernel
  have hvalue : leastWord.value = ((-2 ^ 63 : ℤ) : ℚ) :=
    (Double.toInt?_eq_some_iff hfinite).mp hint
  refine ⟨hint, ?_, ofNumber_of_not_held hfinite hint (by decide), by decide +kernel⟩
  rw [hvalue]
  norm_num

end Serializer
end TreeStream
