import Mathlib.Tactic.FieldSimp
import Mathlib.Tactic.Positivity
import TreeStream.Double.Reading
import TreeStream.Json.Printer
import TreeStream.Proofs.Rounding

/-!
# Digits that read back

Seventeen significant digits always suffice: the nearest number with that many of them is less than
half a spacing away from a double, so the search for the fewest digits ends with a number that
rounds to the double. Every layout writes a text of just this number, and the text reads as the
double.
-/

namespace TreeStream
namespace Double

variable {e : Fin 2047} {f : Fin fractions}

/-! ## The search -/

def Digits.value (d : Digits) : ℚ := d.digits * 10 ^ d.power

/-- The number, in quarters of a unit, lies in the interval. -/
def Interval.Holds (i : Interval) (x : ℚ) : Prop :=
  if i.closed then i.low ≤ x ∧ x ≤ i.high else i.low < x ∧ x < i.high

/-- Digits of a number in the interval. -/
def Digits.Hits (d : Digits) (i : Interval) : Prop :=
  0 < d.digits ∧ i.Holds (4 * one * d.value)

theorem Interval.contains_iff_holds (i : Interval) {num den : Nat} (hden : 0 < den) :
    i.contains num den = true ↔ i.Holds (num / den) := by
  have hpos : (0 : ℚ) < den := Nat.cast_pos.mpr hden
  cases hclosed : i.closed with
  | true =>
    simp only [contains, Holds, hclosed, if_true, Bool.and_eq_true, decide_eq_true_eq,
      le_div_iff₀ hpos, div_le_iff₀ hpos]
    exact_mod_cast Iff.rfl
  | false =>
    simp only [contains, Holds, hclosed, Bool.false_eq_true, if_false, Bool.and_eq_true,
      decide_eq_true_eq, lt_div_iff₀ hpos, div_lt_iff₀ hpos]
    exact_mod_cast Iff.rfl

theorem one_pos : 0 < one := by decide

theorem gridStep_pos (power : Int) : 0 < (gridStep power).1 ∧ 0 < (gridStep power).2 := by
  unfold gridStep
  split
  · exact ⟨Nat.mul_pos (Nat.pow_pos (by decide)) (Nat.mul_pos (by decide) one_pos), Nat.one_pos⟩
  · exact ⟨Nat.mul_pos (by decide) one_pos, Nat.pow_pos (by decide)⟩

theorem gridStep_eq (power : Int) :
    ((gridStep power).1 : ℚ) / (gridStep power).2 = 4 * one * 10 ^ power := by
  unfold gridStep
  split
  case isTrue h =>
    obtain ⟨n, rfl⟩ := Int.eq_ofNat_of_zero_le h
    simp only [Int.toNat_natCast, Nat.pow_eq, Nat.cast_mul, Nat.cast_pow, Nat.cast_one, div_one,
      zpow_natCast]
    push_cast
    ring
  case isFalse h =>
    obtain ⟨n, hn⟩ := Int.eq_ofNat_of_zero_le (show 0 ≤ -power by omega)
    rw [hn, show power = -(n : ℤ) by omega, zpow_neg, zpow_natCast, Int.toNat_natCast]
    simp only [Nat.pow_eq, Nat.cast_mul, Nat.cast_pow]
    push_cast
    exact div_eq_mul_inv _ _

theorem hits_of_nearestOnGrid {tie : Tie} {i : Interval} {power : Int} {n : Nat}
    (h : nearestOnGrid? tie i power = some n) : (Digits.mk n power).Hits i := by
  have hden := (gridStep_pos power).2
  have hpoint : ∀ k : Nat, i.contains (k * (gridStep power).1) (gridStep power).2 = true →
      i.Holds (4 * one * (Digits.mk k power).value) := by
    intro k hk
    have hvalue : ((k * (gridStep power).1 : Nat) : ℚ) / (gridStep power).2 =
        4 * one * (Digits.mk k power).value := by
      rw [Nat.cast_mul, mul_div_assoc, gridStep_eq, Digits.value]
      ring
    exact hvalue ▸ (i.contains_iff_holds hden).mp hk
  unfold nearestOnGrid? at h
  dsimp only at h
  generalize i.value * (gridStep power).2 / (gridStep power).1 = down at h
  have hup : i.contains ((down + 1) * (gridStep power).1) (gridStep power).2 = true →
      (Digits.mk (down + 1) power).Hits i := fun hhit => ⟨Nat.succ_pos down, hpoint _ hhit⟩
  have hdown : (decide (0 < down) && i.contains (down * (gridStep power).1) (gridStep power).2) =
      true → (Digits.mk down power).Hits i := fun hhit =>
    have hhit := Bool.and_eq_true_iff.mp hhit
    ⟨of_decide_eq_true hhit.1, hpoint _ hhit.2⟩
  split at h
  case h_1 hlow hhigh =>
    rw [← Option.some.inj h]
    split
    · split
      · exact hup hhigh
      · exact hdown hlow
    · split
      · exact hup hhigh
      · exact hdown hlow
  case h_2 hlow _ => exact Option.some.inj h ▸ hdown hlow
  case h_3 _ hhigh => exact Option.some.inj h ▸ hup hhigh
  case h_4 => cases h

theorem decimalExponent_le {num den : Nat} (hnum : 0 < num) (hden : 0 < den) :
    (10 : ℚ) ^ decimalExponent num den ≤ num / den := by
  have hden' : (0 : ℚ) < den := Nat.cast_pos.mpr hden
  unfold decimalExponent
  split
  case isTrue hle =>
    generalize hn : num / den = n
    have hpos : 0 < n := hn ▸ Nat.div_pos hle hden
    have hlen : 0 < (Nat.toDigits 10 n).length := Nat.length_toDigits_pos
    obtain ⟨k, hk⟩ : ∃ k, (Nat.toDigits 10 n).length = k + 1 := ⟨_, (Nat.sub_add_cancel hlen).symm⟩
    have hpow : 10 ^ k ≤ n := by
      rcases Nat.eq_zero_or_pos k with rfl | hk0
      · exact hpos
      · by_contra hlt
        have := (Nat.length_toDigits_le_iff (by decide) hk0).mpr (Nat.lt_of_not_le hlt)
        omega
    rw [hk, Nat.cast_succ, add_sub_cancel_right, zpow_natCast, le_div_iff₀ hden']
    have : 10 ^ k * den ≤ num :=
      (Nat.mul_le_mul_right den (hn ▸ hpow)).trans (Nat.div_mul_le_self num den)
    exact_mod_cast this
  case isFalse hlt =>
    generalize hk : (Nat.toDigits 10 ((den - 1) / num)).length = k
    have hpow : (den - 1) / num < 10 ^ k :=
      (Nat.length_toDigits_le_iff (by decide) (hk ▸ Nat.length_toDigits_pos)).mp (Nat.le_of_eq hk)
    rw [Nat.div_lt_iff_lt_mul hnum] at hpow
    rw [zpow_neg, zpow_natCast, inv_le_iff_one_le_mul₀ (by positivity), div_mul_eq_mul_div,
      one_le_div hden']
    have : den ≤ num * 10 ^ k := by
      rw [Nat.mul_comm]
      omega
    exact_mod_cast this

theorem interval_eq (e : Fin 2047) (f : Fin fractions) :
    (interval e f).low = 4 * significand e f * 2 ^ scale e - gap e f * 2 ^ scale e ∧
      (interval e f).value = 4 * significand e f * 2 ^ scale e ∧
      (interval e f).high = 4 * significand e f * 2 ^ scale e + 2 * 2 ^ scale e := by
  simp only [interval, gap, Nat.shiftLeft_eq, Nat.one_mul]
  split <;> simp

theorem gap_le_two (e : Fin 2047) (f : Fin fractions) : gap e f ≤ 2 := by
  unfold gap
  split <;> decide

/-- What is less than half a spacing of seventeen digits away from a double is in its interval. -/
theorem holds_of_near (hpos : 0 < significand e f) {x step : ℚ}
    (hstep : 10 ^ 16 * step ≤ (interval e f).value)
    (hlow : (interval e f).value - x ≤ step / 2) (hhigh : x - (interval e f).value ≤ step / 2) :
    (interval e f).Holds x := by
  have hc : significand e f < 2 * fractions := significand_lt e f
  have hq : 0 < 2 ^ scale e := Nat.two_pow_pos _
  have hgap : gap e f = 1 ∧ significand e f = fractions ∨ gap e f = 2 := by
    unfold gap
    split
    case isTrue h => exact .inl ⟨rfl, by rw [significand, if_neg (by omega), h.1, Nat.add_zero]⟩
    case isFalse => exact .inr rfl
  obtain ⟨hl, hv, hh⟩ := interval_eq e f
  have hreach : gap e f * 2 ^ scale e ≤ 4 * significand e f * 2 ^ scale e :=
    Nat.mul_le_mul_right _ (by omega)
  rw [hv] at hstep hlow hhigh
  have hstrict : ((interval e f).low : ℚ) < x ∧ x < (interval e f).high := by
    rw [hl, hh, Nat.cast_sub hreach]
    push_cast at hstep hlow hhigh ⊢
    have hq : (0 : ℚ) < 2 ^ scale e := by positivity
    have hc : (significand e f : ℚ) * 2 ^ scale e ≤ 9007199254740992 * 2 ^ scale e :=
      mul_le_mul_of_nonneg_right (by exact_mod_cast hc.le) hq.le
    generalize (2 : ℚ) ^ scale e = q at *
    -- the step is below four spacings, and below two just above a power of two
    rcases hgap with ⟨hone, hfull⟩ | htwo
    · rw [hone]
      rw [hfull] at hstep hlow hhigh ⊢
      push_cast at hstep hlow hhigh ⊢
      constructor <;> linarith
    · rw [htwo]
      push_cast
      constructor <;> linarith
  unfold Interval.Holds
  split
  · exact ⟨hstrict.1.le, hstrict.2.le⟩
  · exact hstrict

theorem nearestOnGrid_ne_none (tie : Tie) (hpos : 0 < significand e f) {power : Int}
    (hpower : 10 ^ 16 * (4 * one * 10 ^ power) ≤ ((interval e f).value : ℚ)) :
    nearestOnGrid? tie (interval e f) power ≠ none := by
  obtain ⟨hnum, hden⟩ := gridStep_pos power
  have hstep := gridStep_eq power
  have hnum' : (0 : ℚ) < (gridStep power).1 := Nat.cast_pos.mpr hnum
  have hden' : (0 : ℚ) < (gridStep power).2 := Nat.cast_pos.mpr hden
  obtain ⟨step, hs⟩ : ∃ step : ℚ, step = 4 * one * 10 ^ power := ⟨_, rfl⟩
  rw [← hs] at hstep hpower
  have hsp : 0 < step := hstep ▸ div_pos hnum' hden'
  have hcast : ((gridStep power).1 : ℚ) = step * (gridStep power).2 :=
    (div_eq_iff hden'.ne').mp hstep
  have hpoint : ∀ k : Nat,
      ((k * (gridStep power).1 : Nat) : ℚ) / (gridStep power).2 = k * step := by
    intro k
    rw [Nat.cast_mul, mul_div_assoc, hstep]
  unfold nearestOnGrid?
  dsimp only
  generalize hk : (interval e f).value * (gridStep power).2 / (gridStep power).1 = down
  have hle : (down : ℚ) * step ≤ (interval e f).value := by
    have : down * (gridStep power).1 ≤ (interval e f).value * (gridStep power).2 :=
      hk ▸ Nat.div_mul_le_self _ _
    have : (down : ℚ) * (gridStep power).1 ≤ (interval e f).value * (gridStep power).2 := by
      exact_mod_cast this
    rw [hcast, ← mul_assoc] at this
    exact le_of_mul_le_mul_right this hden'
  have hlt : ((interval e f).value : ℚ) < (down + 1) * step := by
    have : (interval e f).value * (gridStep power).2 < (down + 1) * (gridStep power).1 :=
      (Nat.div_lt_iff_lt_mul hnum).mp (hk ▸ Nat.lt_succ_self down)
    have : ((interval e f).value : ℚ) * (gridStep power).2 < (down + 1) * (gridStep power).1 := by
      exact_mod_cast this
    rw [hcast, ← mul_assoc] at this
    exact lt_of_mul_lt_mul_right this hden'.le
  have hdown : 0 < down := by
    refine Nat.pos_of_ne_zero fun hzero => ?_
    rw [hzero] at hlt
    push_cast at hlt
    linarith
  split
  case h_4 hlow hhigh =>
    exfalso
    rcases le_total (((interval e f).value : ℚ) - down * step) (step / 2) with hnear | hfar
    · have hhit : (interval e f).Holds (down * step) :=
        holds_of_near hpos hpower hnear (by linarith)
      rw [← hpoint, ← Interval.contains_iff_holds _ hden] at hhit
      rw [hhit, Bool.and_true, decide_eq_false_iff_not] at hlow
      exact hlow hdown
    · have hhit : (interval e f).Holds ((down + 1 : Nat) * step) :=
        holds_of_near hpos hpower (by push_cast; linarith) (by push_cast; linarith)
      rw [← hpoint, ← Interval.contains_iff_holds _ hden] at hhit
      exact nomatch hhit.symm.trans hhigh
  all_goals exact Option.some_ne_none _

theorem hits_shortestFrom (tie : Tie) (hpos : 0 < significand e f) {exponent : Int}
    (hexponent : 4 * one * 10 ^ exponent ≤ ((interval e f).value : ℚ)) {fuel digits : Nat}
    (hdigits : digits ≤ 17) (hfuel : 17 < digits + fuel) :
    (shortestFrom tie (interval e f) exponent fuel digits).Hits (interval e f) := by
  induction fuel generalizing digits with
  | zero => omega
  | succ fuel ih =>
    rw [shortestFrom]
    split
    case h_1 n hn => exact hits_of_nearestOnGrid hn
    case h_2 hnone =>
      refine ih ?_ (by omega)
      by_contra hlast
      obtain rfl : digits = 17 := by omega
      refine nearestOnGrid_ne_none tie hpos ?_ hnone
      have hpower : (10 : ℚ) ^ exponent = 10 ^ 16 * 10 ^ (exponent + 1 - (17 : Nat)) := by
        rw [← zpow_natCast, ← zpow_add₀ (by norm_num)]
        congr 1
        push_cast
        ring
      rw [hpower] at hexponent
      linarith

theorem Digits.Hits.trim {d : Digits} {i : Interval} (hd : d.Hits i) (fuel : Nat) :
    (d.trim fuel).Hits i := by
  induction fuel generalizing d with
  | zero => exact hd
  | succ fuel ih =>
    rw [Digits.trim]
    split
    case isTrue h =>
      obtain ⟨k, hk⟩ := Nat.dvd_of_mod_eq_zero h.1
      have hdiv : d.digits / 10 = k := by omega
      have hvalue : (Digits.mk (d.digits / 10) (d.power + 1)).value = d.value := by
        rw [Digits.value, Digits.value, hdiv, hk, zpow_add₀ (by norm_num), zpow_one]
        push_cast
        ring
      exact ih ⟨by dsimp only; omega, hvalue ▸ hd.2⟩
    case isFalse => exact hd

theorem interval_value (negative : Bool) (e : Fin 2047) (f : Fin fractions) :
    (interval e f).value = 4 * (finite negative e f).units := by
  rw [units_finite, interval, Nat.shiftLeft_eq, Nat.one_mul, Nat.mul_assoc]

/-- The fewest digits of a double stand for a number that rounds to it. -/
theorem hits_shortest (tie : Tie) (negative : Bool) (hpos : 0 < significand e f) :
    (shortest tie (finite negative e f)).Hits (interval e f) := by
  have hunits : 0 < (finite negative e f).units :=
    Nat.pos_of_ne_zero fun h => hpos.ne' ((units_eq_zero_iff negative e f).mp h)
  have hexponent := decimalExponent_le hunits one_pos
  rw [le_div_iff₀ (Nat.cast_pos.mpr one_pos)] at hexponent
  refine (hits_shortestFrom tie hpos ?_ (by decide) (by decide)).trim 20
  rw [interval_value negative]
  push_cast
  linarith

/-! ## Reading -/

/-- No interval reaches down to a quarter of a unit, or up to a number with 401 digits. -/
theorem Interval.Holds.bounds (hpos : 0 < significand e f) {x : ℚ}
    (h : (interval e f).Holds (4 * one * x)) : 10 ^ (-401 : ℤ) < x ∧ x < 10 ^ (400 : ℤ) := by
  obtain ⟨hl, -, hh⟩ := interval_eq e f
  have hbetween : ((interval e f).low : ℚ) ≤ 4 * one * x ∧ 4 * one * x ≤ (interval e f).high := by
    unfold Interval.Holds at h
    split at h
    · exact h
    · exact ⟨h.1.le, h.2.le⟩
  have hlow : 1 < (interval e f).low := by
    have hq : 0 < 2 ^ scale e := Nat.two_pow_pos _
    have hvalue : 4 * 2 ^ scale e ≤ 4 * significand e f * 2 ^ scale e :=
      Nat.mul_le_mul_right _ (by omega)
    have hgap : gap e f * 2 ^ scale e ≤ 2 * 2 ^ scale e := Nat.mul_le_mul_right _ (gap_le_two e f)
    omega
  have hscale : scale e ≤ 2045 := by
    have := e.isLt
    unfold scale
    omega
  have hhigh : (interval e f).high ≤ (8 * fractions + 2) * 2 ^ 2045 := by
    have hq : 2 ^ scale e ≤ 2 ^ 2045 := pow_le_pow_right₀ (by decide) hscale
    have hc : 4 * significand e f + 2 ≤ 8 * fractions + 2 := by
      have := significand_lt e f
      omega
    rw [hh, ← Nat.add_mul]
    exact Nat.mul_le_mul hc hq
  have hone : (0 : ℚ) < 4 * one := by exact_mod_cast Nat.mul_pos (by decide) one_pos
  constructor
  · have hsmall : 4 * one < 10 ^ 401 := by decide +kernel
    have hsmall : (4 * one : ℚ) * 10 ^ (-401 : ℤ) < 1 := by
      rw [zpow_neg, ← div_eq_mul_inv, div_lt_one (zpow_pos (by norm_num) _)]
      exact_mod_cast hsmall
    have hlow : (1 : ℚ) < (interval e f).low := by exact_mod_cast hlow
    exact lt_of_mul_lt_mul_left (hsmall.trans (hlow.trans_le hbetween.1)) hone.le
  · have hlarge : (8 * fractions + 2) * 2 ^ 2045 < 4 * one * 10 ^ 400 := by decide +kernel
    have hlarge : ((interval e f).high : ℚ) < 4 * one * 10 ^ (400 : ℤ) := by
      exact_mod_cast hhigh.trans_lt hlarge
    exact lt_of_mul_lt_mul_left (hbetween.2.trans_lt hlarge) hone.le

/-- The number of digits before the point tells the size. -/
theorem Digits.value_bounds {digits : Nat} (hdigits : 0 < digits) (power : Int) :
    (10 : ℚ) ^ ((Nat.toDigits 10 digits).length + power - 1) ≤ (Digits.mk digits power).value ∧
      (Digits.mk digits power).value < 10 ^ ((Nat.toDigits 10 digits).length + power) := by
  have hten : (0 : ℚ) < 10 ^ power := zpow_pos (by norm_num) _
  generalize hlen : (Nat.toDigits 10 digits).length = len
  have hlenpos : 0 < len := hlen ▸ Nat.length_toDigits_pos
  obtain ⟨k, rfl⟩ : ∃ k, len = k + 1 := ⟨_, (Nat.sub_add_cancel hlenpos).symm⟩
  have hlt : digits < 10 ^ (k + 1) :=
    (Nat.length_toDigits_le_iff (by decide) hlenpos).mp (Nat.le_of_eq hlen)
  have hle : 10 ^ k ≤ digits := by
    rcases Nat.eq_zero_or_pos k with rfl | hk
    · exact hdigits
    · by_contra hlt
      have := (Nat.length_toDigits_le_iff (by decide) hk).mpr (Nat.lt_of_not_le hlt)
      omega
  have hlow : ((k + 1 : Nat) : ℤ) + power - 1 = k + power := by push_cast; ring
  rw [hlow, zpow_add₀ (by norm_num), zpow_add₀ (by norm_num), zpow_natCast, zpow_natCast, value]
  constructor
  · exact mul_le_mul_of_nonneg_right (by exact_mod_cast hle) hten.le
  · exact mul_lt_mul_of_pos_right (by exact_mod_cast hlt) hten

/-- Digits of a number in the interval of a double read as the double. -/
theorem ofDecimal_of_hits (negative : Bool) (hpos : 0 < significand e f) {digits : Nat}
    {power : Int} (h : (Digits.mk digits power).Hits (interval e f)) :
    ofDecimal negative digits power = finite negative e f := by
  obtain ⟨hdigits, hholds⟩ := h
  obtain ⟨hsmall, hlarge⟩ := hholds.bounds hpos
  obtain ⟨hlow, hhigh⟩ := Digits.value_bounds hdigits power
  have hpoint : -400 ≤ (Nat.toDigits 10 digits).length + power := by
    by_contra hlt
    have := zpow_le_zpow_right₀ (a := (10 : ℚ)) (by norm_num)
      (show (Nat.toDigits 10 digits).length + power ≤ -401 by omega)
    linarith
  have hpoint' : (Nat.toDigits 10 digits).length + power ≤ 400 := by
    by_contra hlt
    have := zpow_le_zpow_right₀ (a := (10 : ℚ)) (by norm_num)
      (show 400 ≤ (Nat.toDigits 10 digits).length + power - 1 by omega)
    linarith
  have hratio : ∀ {num den : Nat}, 0 < den → (num : ℚ) / den = (Digits.mk digits power).value →
      ofRatio negative num den = finite negative e f := by
    intro num den hden hvalue
    refine ofRatio_of_contains negative hden hpos ((Interval.contains_iff_holds _ hden).mpr ?_)
    have hscaled : ((4 * (num * one) : Nat) : ℚ) / den =
        4 * one * (Digits.mk digits power).value := by
      rw [← hvalue]
      push_cast
      ring
    rwa [hscaled]
  have hdigits : digits ≠ 0 := hdigits.ne'
  unfold ofDecimal
  dsimp only
  rw [if_neg (by omega), if_neg (by omega)]
  split
  case isTrue hp =>
    obtain ⟨n, rfl⟩ := Int.eq_ofNat_of_zero_le hp
    refine hratio Nat.one_pos ?_
    simp only [Digits.value, Int.toNat_natCast, Nat.pow_eq, zpow_natCast]
    push_cast
    ring
  case isFalse hp =>
    obtain ⟨n, hn⟩ := Int.eq_ofNat_of_zero_le (show 0 ≤ -power by omega)
    refine hratio (Nat.pow_pos (by decide)) ?_
    rw [hn, Digits.value, show power = -(n : ℤ) by omega, zpow_neg, zpow_natCast, Int.toNat_natCast]
    simp only [Nat.pow_eq]
    push_cast
    exact div_eq_mul_inv _ _

/-! ## Texts -/

def dotted : List Char → List Char
  | [] => []
  | c :: cs => '.' :: c :: cs

theorem isDigit_of_append {cs cs' : List Char} (h : ∀ c ∈ cs, c.isDigit = true)
    (h' : ∀ c ∈ cs', c.isDigit = true) : ∀ c ∈ cs ++ cs', c.isDigit = true :=
  fun c hc => (List.mem_append.mp hc).elim (h c) (h' c)

theorem isDigit_of_zeros (n : Nat) : ∀ c ∈ List.replicate n '0', c.isDigit = true :=
  fun _ hc => List.eq_of_mem_replicate hc ▸ rfl

theorem span_digits {cs : List Char} (rest : List Char) (hcs : ∀ c ∈ cs, c.isDigit = true)
    (hrest : rest.head?.all (fun c => !c.isDigit) = true) :
    (cs ++ rest).takeWhile Char.isDigit = cs ∧ (cs ++ rest).dropWhile Char.isDigit = rest := by
  rw [List.takeWhile_append_of_pos hcs, List.dropWhile_append_of_pos hcs]
  cases rest with
  | nil => simp
  | cons c rest =>
    have hc : c.isDigit = false := by simpa using hrest
    simp [hc]

theorem ofDecimalChars?_eq (negative : Bool) (fraction : List Char) {whole tail : List Char}
    {exponent : Int}
    (hwhole : ∀ c ∈ whole, c.isDigit = true) (hne : whole ≠ [])
    (hfraction : ∀ c ∈ fraction, c.isDigit = true)
    (htail : tail = [] ∧ exponent = 0 ∨ ∃ r, tail = 'e' :: r ∧ exponentOf? r = some exponent) :
    ofDecimalChars? negative (whole ++ (dotted fraction ++ tail)) =
      some (ofDecimal negative (digitsValue (whole ++ fraction)) (exponent - fraction.length)) := by
  have hhead : tail.head?.all (fun c => !c.isDigit) = true ∧ (tail.head? == some '.') = false := by
    obtain ⟨rfl, -⟩ | ⟨r, rfl, -⟩ := htail <;> exact ⟨rfl, rfl⟩
  have hempty : whole.isEmpty = false := by simpa using hne
  unfold ofDecimalChars?
  dsimp only
  cases fraction with
  | nil =>
    obtain ⟨htake, hdrop⟩ := span_digits (dotted [] ++ tail) hwhole hhead.1
    rw [htake, hdrop]
    simp only [dotted, List.nil_append, hhead.2, Bool.false_eq_true, if_false, hempty,
      Bool.false_and]
    obtain ⟨rfl, rfl⟩ | ⟨r, rfl, hr⟩ := htail
    · rfl
    · exact congrArg (Option.map _) hr
  | cons c cs =>
    have hdot : dotted (c :: cs) ++ tail = '.' :: (c :: cs ++ tail) := rfl
    obtain ⟨htake, hdrop⟩ := span_digits ('.' :: (c :: cs ++ tail)) hwhole rfl
    obtain ⟨htake', hdrop'⟩ := span_digits tail hfraction hhead.1
    rw [hdot, htake, hdrop]
    simp only [List.head?_cons, beq_self_eq_true, if_true, List.drop_one, List.tail_cons, htake',
      hdrop', hempty, Bool.false_and, Bool.false_eq_true, if_false]
    obtain ⟨rfl, rfl⟩ | ⟨r, rfl, hr⟩ := htail
    · rfl
    · exact congrArg (Option.map _) hr

/-- The characters begin with a digit and name a decimal number of this value. -/
def Reads (negative : Bool) (cs : List Char) (x : ℚ) : Prop :=
  (∃ c rest, cs = c :: rest ∧ c.isDigit = true) ∧
    ∃ d : Digits, ofDecimalChars? negative cs = some (ofDecimal negative d.digits d.power) ∧
      d.value = x

theorem reads_of_parts (negative : Bool) {whole : List Char} (fraction tail : List Char)
    (exponent : Int) {x : ℚ} (hwhole : ∀ c ∈ whole, c.isDigit = true) (hne : whole ≠ [])
    (hfraction : ∀ c ∈ fraction, c.isDigit = true)
    (htail : tail = [] ∧ exponent = 0 ∨ ∃ r, tail = 'e' :: r ∧ exponentOf? r = some exponent)
    (hx : (Digits.mk (digitsValue (whole ++ fraction)) (exponent - fraction.length)).value = x) :
    Reads negative (whole ++ (dotted fraction ++ tail)) x := by
  refine ⟨?_, _, ofDecimalChars?_eq negative fraction hwhole hne hfraction htail, hx⟩
  obtain ⟨c, cs, rfl⟩ := List.exists_cons_of_ne_nil hne
  exact ⟨c, cs ++ (dotted fraction ++ tail), rfl, hwhole c List.mem_cons_self⟩

theorem digitsValue_zeros_append (n : Nat) (cs : List Char) :
    digitsValue (List.replicate n '0' ++ cs) = digitsValue cs := by
  change Nat.ofDigitChars 10 (List.replicate n '0' ++ cs) 0 = Nat.ofDigitChars 10 cs 0
  rw [Nat.ofDigitChars_append, Nat.ofDigitChars_replicate_zero, Nat.mul_zero]

theorem digitsValue_append_zeros (cs : List Char) (n : Nat) :
    digitsValue (cs ++ List.replicate n '0') = digitsValue cs * 10 ^ n := by
  change Nat.ofDigitChars 10 (cs ++ List.replicate n '0') 0 = Nat.ofDigitChars 10 cs 0 * 10 ^ n
  rw [Nat.ofDigitChars_append, Nat.ofDigitChars_replicate_zero, Nat.mul_comm]

theorem Digits.value_zeros (digits n : Nat) (power : Int) :
    (Digits.mk (digits * 10 ^ n) (power - n)).value = (Digits.mk digits power).value := by
  rw [value, value, zpow_sub₀ (by norm_num), zpow_natCast]
  push_cast
  field_simp

theorem exponentOf?_eq (plusSign : Bool) (exponent : Int) :
    exponentOf? ((if exponent < 0 then ['-'] else if plusSign then ['+'] else []) ++
      Nat.toDigits 10 exponent.natAbs) = some exponent := by
  have hdigits : ∀ c ∈ Nat.toDigits 10 exponent.natAbs, c.isDigit = true :=
    fun c hc => Nat.isDigit_of_mem_toDigits (by decide) (by decide) hc
  have hvalue : digitsValue (Nat.toDigits 10 exponent.natAbs) = exponent.natAbs :=
    Nat.ofDigitChars_ten_toDigits
  obtain ⟨c, cs, hcs⟩ := List.exists_cons_of_ne_nil
    (Nat.toDigits_ne_nil : Nat.toDigits 10 exponent.natAbs ≠ [])
  have hall : (Nat.toDigits 10 exponent.natAbs).all Char.isDigit = true :=
    List.all_eq_true.mpr hdigits
  have hc : c ≠ '-' ∧ c ≠ '+' := by
    have hc := hdigits c (by rw [hcs]; exact List.mem_cons_self)
    constructor <;> (rintro rfl; cases hc)
  rw [hcs] at hall hvalue ⊢
  unfold exponentOf?
  dsimp only
  split
  case isTrue hneg =>
    simp [hall, hvalue, -Nat.cast_natAbs]
    omega
  case isFalse hpos =>
    cases plusSign <;> simp [hall, hvalue, hc, -Nat.cast_natAbs] <;> omega

theorem dotted_of_ne_nil {cs : List Char} (h : cs ≠ []) : dotted cs = '.' :: cs := by
  cases cs with
  | nil => exact absurd rfl h
  | cons c cs => rfl

theorem reads_positional (negative keepsFraction : Bool) {ds : List Char}
    (hds : ∀ c ∈ ds, c.isDigit = true) (hne : ds ≠ []) (point : Int) :
    Reads negative (positional keepsFraction ds point)
      (Digits.mk (digitsValue ds) (point - ds.length)).value := by
  unfold positional
  split
  case isTrue hpoint =>
    obtain ⟨k, hk⟩ := Int.eq_ofNat_of_zero_le (show 0 ≤ -point by omega)
    have hparts : '0' :: '.' :: List.replicate (-point).toNat '0' ++ ds =
        ['0'] ++ (dotted (List.replicate k '0' ++ ds) ++ []) := by
      rw [dotted_of_ne_nil (by simp [hne]), hk, Int.toNat_natCast]
      simp
    rw [hparts]
    refine reads_of_parts negative _ _ 0 (by simp) (by simp)
      (isDigit_of_append (isDigit_of_zeros k) hds) (.inl ⟨rfl, rfl⟩) ?_
    have hvalue : digitsValue (['0'] ++ (List.replicate k '0' ++ ds)) = digitsValue ds :=
      digitsValue_zeros_append (k + 1) ds
    rw [hvalue]
    congr 2
    simp only [List.length_append, List.length_replicate]
    omega
  case isFalse hpoint =>
    obtain ⟨n, rfl⟩ := Int.eq_ofNat_of_zero_le (show 0 ≤ point by omega)
    simp only [Int.toNat_natCast]
    split
    case isTrue hlen =>
      obtain ⟨k, hk⟩ : ∃ k, n = ds.length + k := ⟨n - ds.length, by omega⟩
      have hsub : n - ds.length = k := by omega
      have hpower : (n : ℤ) - ds.length = k := by omega
      rw [hsub, hpower]
      have hwhole := isDigit_of_append hds (isDigit_of_zeros k)
      cases keepsFraction with
      | true =>
        refine reads_of_parts negative ['0'] [] 0 hwhole (by simp [hne]) (by simp)
          (.inl ⟨rfl, rfl⟩) ?_
        rw [List.append_assoc, ← List.replicate_succ', digitsValue_append_zeros]
        refine Eq.trans ?_ (Digits.value_zeros (digitsValue ds) (k + 1) k)
        congr 2
        rw [List.length_singleton]
        omega
      | false =>
        refine reads_of_parts negative [] [] 0 hwhole (by simp [hne]) (by simp)
          (.inl ⟨rfl, rfl⟩) ?_
        rw [List.append_nil, digitsValue_append_zeros]
        refine Eq.trans ?_ (Digits.value_zeros (digitsValue ds) k k)
        congr 2
        rw [List.length_nil]
        omega
    case isFalse hlen =>
      have hdrop : ds.drop n ≠ [] := by simpa using hlen
      have hparts : ds.take n ++ '.' :: ds.drop n = ds.take n ++ (dotted (ds.drop n) ++ []) := by
        rw [dotted_of_ne_nil hdrop, List.append_nil]
      rw [hparts]
      refine reads_of_parts negative _ _ 0 (fun c hc => hds c (List.mem_of_mem_take hc)) ?_
        (fun c hc => hds c (List.mem_of_mem_drop hc)) (.inl ⟨rfl, rfl⟩) ?_
      · simp only [ne_eq, List.take_eq_nil_iff, hne, or_false]
        omega
      · rw [List.take_append_drop]
        congr 2
        rw [List.length_drop]
        omega

theorem reads_scientific (negative plusSign : Bool) {ds : List Char}
    (hds : ∀ c ∈ ds, c.isDigit = true) (hne : ds ≠ []) (exponent : Int) :
    Reads negative (scientific plusSign ds exponent)
      (Digits.mk (digitsValue ds) (exponent + 1 - ds.length)).value := by
  have hparts : scientific plusSign ds exponent = ds.take 1 ++ (dotted (ds.drop 1) ++
      'e' :: ((if exponent < 0 then ['-'] else if plusSign then ['+'] else []) ++
        Nat.toDigits 10 exponent.natAbs)) := by
    unfold scientific
    cases ds.drop 1 <;> simp [dotted]
  rw [hparts]
  refine reads_of_parts negative _ _ exponent
    (fun c hc => hds c (List.mem_of_mem_take hc)) (by simp [hne])
    (fun c hc => hds c (List.mem_of_mem_drop hc)) (.inr ⟨_, rfl, exponentOf?_eq plusSign _⟩) ?_
  rw [List.take_append_drop]
  congr 2
  have := List.length_pos_iff.mpr hne
  rw [List.length_drop]
  omega

theorem toLower_digit {c : Char} (hc : c.isDigit = true) : c.toLower = c := by
  refine dif_neg fun hupper => ?_
  have hupper : 'A'.toNat ≤ c.toNat := hupper.1
  exact absurd (Nat.le_trans hupper (Char.isDigit_iff_toNat.mp hc).2) (by decide)

theorem ofText?_of_reads (negative : Bool) {cs : List Char} {x : ℚ} (h : Reads negative cs x) :
    ofText? (String.ofList ((if negative then ['-'] else []) ++ cs)) =
      ofDecimalChars? negative cs := by
  obtain ⟨⟨c, rest, rfl, hc⟩, -⟩ := h
  have hsign : c ≠ '-' ∧ c ≠ '+' := by constructor <;> (rintro rfl; cases hc)
  have hword : ∀ s : String, (∃ d ds, s = String.ofList (d :: ds) ∧ d.isDigit = false) →
      String.ofList ((c :: rest).map Char.toLower) ≠ s := by
    rintro s ⟨d, ds, rfl, hd⟩ heq
    have hlist := String.ofList_injective heq
    rw [List.map_cons, toLower_digit hc] at hlist
    rw [(List.cons.inj hlist).1] at hc
    exact nomatch hc.symm.trans hd
  have hinf := hword "inf" ⟨'i', ['n', 'f'], rfl, rfl⟩
  have hinfinity := hword "infinity" ⟨'i', ['n', 'f', 'i', 'n', 'i', 't', 'y'], rfl, rfl⟩
  have hnan := hword "nan" ⟨'n', ['a', 'n'], rfl, rfl⟩
  unfold ofText?
  dsimp only
  rw [String.toList_ofList]
  cases negative with
  | true =>
    simp only [if_true, List.singleton_append, List.head?_cons, beq_self_eq_true, Bool.true_or,
      List.drop_one, List.tail_cons, hinf, hinfinity, hnan, or_self, if_false]
  | false =>
    have hminus : (some c == some '-') = false := by simpa using hsign.1
    have hplus : (some c == some '+') = false := by simpa using hsign.2
    simp only [Bool.false_eq_true, if_false, List.nil_append, List.head?_cons, hminus, hplus,
      Bool.or_self, hinf, hinfinity, hnan, or_self]

theorem eq_zero_of_significand (h : significand e f = 0) : e = 0 ∧ f = 0 := by
  unfold significand at h
  split at h
  case isTrue he => exact ⟨Fin.ext he, Fin.ext h⟩
  case isFalse => exact absurd h (Nat.ne_of_gt (Nat.add_pos_left (by decide) _))

/-- In every layout the text of a finite double reads as the double. -/
theorem ofText?_text (l : Layout) (negative : Bool) (e : Fin 2047) (f : Fin fractions) :
    ofText? (l.text (finite negative e f)) = some (finite negative e f) := by
  obtain ⟨d, hd⟩ : ∃ d, (if (finite negative e f).units = 0 then ⟨0, 0⟩
    else shortest l.tie (finite negative e f)) = d := ⟨_, rfl⟩
  have hreads : Reads negative (l.magnitude (finite negative e f)) d.value := by
    have hdigits : ∀ c ∈ Nat.toDigits 10 d.digits, c.isDigit = true :=
      fun c hc => Nat.isDigit_of_mem_toDigits (by decide) (by decide) hc
    have hvalue : digitsValue (Nat.toDigits 10 d.digits) = d.digits := Nat.ofDigitChars_ten_toDigits
    have hpower : ((Nat.toDigits 10 d.digits).length : ℤ) + d.power -
        (Nat.toDigits 10 d.digits).length = d.power := by omega
    unfold Layout.magnitude
    dsimp only
    rw [hd]
    split
    · have := reads_positional negative l.keepsFraction hdigits Nat.toDigits_ne_nil
        ((Nat.toDigits 10 d.digits).length + d.power)
      rwa [hvalue, hpower] at this
    · have := reads_scientific negative l.plusSign hdigits Nat.toDigits_ne_nil
        ((Nat.toDigits 10 d.digits).length + d.power - 1)
      rwa [hvalue, sub_add_cancel, hpower] at this
  have htext : ofText? (l.text (finite negative e f)) =
      ofDecimalChars? negative (l.magnitude (finite negative e f)) :=
    ofText?_of_reads negative hreads
  obtain ⟨-, d', hread, hvalue⟩ := hreads
  rw [htext, hread]
  congr 1
  rcases Nat.eq_zero_or_pos (significand e f) with hzero | hpos
  · rw [if_pos ((units_eq_zero_iff negative e f).mpr hzero)] at hd
    have hnone : d'.digits = 0 := by
      have hten : (10 : ℚ) ^ d'.power ≠ 0 := (zpow_pos (by norm_num) _).ne'
      rw [← hd] at hvalue
      simpa [Digits.value, hten] using hvalue
    obtain ⟨rfl, rfl⟩ := eq_zero_of_significand hzero
    simp [ofDecimal, hnone, zeroOf]
  · rw [if_neg fun h => hpos.ne' ((units_eq_zero_iff negative e f).mp h)] at hd
    have hhits := hits_shortest l.tie negative hpos
    rw [hd] at hhits
    have hdigits : 0 < d'.digits := by
      refine Nat.pos_of_ne_zero fun hnone => ?_
      have : 0 < d.value := mul_pos (Nat.cast_pos.mpr hhits.1) (zpow_pos (by norm_num) _)
      rw [← hvalue, Digits.value, hnone] at this
      simp at this
    exact ofDecimal_of_hits negative hpos ⟨hdigits, hvalue ▸ hhits.2⟩

/-- The text of an integer reads as its double. -/
theorem ofText?_intChars {i : Int} (hi : i.natAbs < UInt64.size) :
    ofText? (String.ofList (Json.intChars i)) = some (ofInt i) := by
  have hdigits : ∀ c ∈ Nat.toDigits 10 i.natAbs, c.isDigit = true :=
    fun c hc => Nat.isDigit_of_mem_toDigits (by decide) (by decide) hc
  have hchars : Json.intChars i = (if decide (i < 0) then ['-'] else []) ++
      (Nat.toDigits 10 i.natAbs ++ (dotted [] ++ [])) := by
    simp [Json.intChars, dotted]
  have hreads := reads_of_parts (decide (i < 0)) [] [] 0 hdigits Nat.toDigits_ne_nil
    (fun _ hc => nomatch hc) (.inl ⟨rfl, rfl⟩) rfl
  have hread := ofDecimalChars?_eq (decide (i < 0)) [] hdigits Nat.toDigits_ne_nil
    (fun _ hc => nomatch hc) (.inl ⟨rfl, rfl⟩)
  have hlen : (Nat.toDigits 10 i.natAbs).length ≤ 20 :=
    (Nat.length_toDigits_le_iff (by decide) (by decide)).mpr (hi.trans (by decide))
  rw [hchars, ofText?_of_reads _ hreads, hread]
  congr 1
  have hvalue : digitsValue (Nat.toDigits 10 i.natAbs ++ []) = i.natAbs := by
    rw [List.append_nil]
    exact Nat.ofDigitChars_ten_toDigits
  rw [hvalue]
  unfold ofDecimal
  dsimp only
  split
  case isTrue hzero =>
    obtain rfl : i = 0 := Int.natAbs_eq_zero.mp (hzero.resolve_right (by simp))
    exact isFinite_ofInt_zero.symm
  case isFalse =>
    rw [if_neg (by simp; omega), if_pos (by simp)]
    simp [ofInt]

end Double
end TreeStream
