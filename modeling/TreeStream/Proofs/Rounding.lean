import Mathlib.Tactic.Linarith
import Mathlib.Tactic.Ring
import TreeStream.Double.Shortest
import TreeStream.Json.Basic

/-!
# Rounding to the nearest double

The interval that the digits of a double are looked for in is the one of the reals that round to the
double: whatever quotient lies in it, the nearest double is found again. So a double is found again
from its exact value, and an integer that a double is equal to reads as that double.
-/

namespace TreeStream
namespace Double

variable {e : Fin 2047} {f : Fin fractions} {num den : Nat}

/-- The whole number within half of the quotient, a tie counting only for an even one. -/
theorem roundHalfEven_eq {c : Nat} (hden : 0 < den) (hlow : 2 * (c * den) ≤ 2 * num + den)
    (hhigh : 2 * num ≤ 2 * (c * den) + den)
    (hodd : c % 2 = 1 → 2 * (c * den) < 2 * num + den ∧ 2 * num < 2 * (c * den) + den) :
    roundHalfEven num den = c := by
  have hnum : num / den * den + num % den = num := Nat.div_add_mod' num den
  have hrest : num % den < den := Nat.mod_lt num hden
  unfold roundHalfEven
  generalize num / den = q at *
  generalize num % den = rest at *
  have hle : q ≤ c := by
    by_contra hlt
    have hmul : (c + 1) * den ≤ q * den := Nat.mul_le_mul_right den (by omega)
    rw [Nat.succ_mul] at hmul
    omega
  have hge : c ≤ q + 1 := by
    by_contra hlt
    have hmul : (q + 2) * den ≤ c * den := Nat.mul_le_mul_right den (by omega)
    rw [Nat.add_mul] at hmul
    omega
  obtain rfl | rfl : c = q ∨ c = q + 1 := by omega
  · dsimp only
    split
    · rfl
    · rw [if_neg (by omega)]
      have heven : c % 2 = 0 := by
        by_contra hne
        have := hodd (by omega)
        omega
      omega
  · rw [show (q + 1) * den = q * den + den from Nat.succ_mul q den] at hlow hhigh hodd
    dsimp only
    rw [if_neg (by omega)]
    split
    · rfl
    · have heven : (q + 1) % 2 = 0 := by
        by_contra hne
        have := hodd (by omega)
        omega
      omega

theorem significand_lt (e : Fin 2047) (f : Fin fractions) : significand e f < 2 * fractions := by
  have hf := f.isLt
  unfold significand
  split <;> omega

/-- The significand of a double that is not below the normal ones has all its bits. -/
theorem le_significand (he : 0 < e.val) (f : Fin fractions) : fractions ≤ significand e f := by
  rw [significand, if_neg (Nat.ne_of_gt he)]
  exact Nat.le_add_right _ _

theorem log2_sub_eq {m s : Nat} (hlow : s = 0 ∨ fractions * 2 ^ s ≤ m)
    (hhigh : m < 2 * fractions * 2 ^ s) : m.log2 - 52 = s := by
  have hhigh' : m < 2 ^ (53 + s) := by rwa [Nat.pow_add]
  have hupper : m = 0 ∨ m.log2 < 53 + s := by
    rcases Nat.eq_zero_or_pos m with rfl | hm
    · exact .inl rfl
    · exact .inr ((Nat.log2_lt (Nat.ne_of_gt hm)).mpr hhigh')
  rcases hlow with rfl | hlow
  · rcases hupper with rfl | hupper
    · decide
    · omega
  · have hpos : 0 < 2 ^ s := Nat.two_pow_pos s
    have hm : m ≠ 0 := Nat.ne_of_gt (lt_of_lt_of_le (Nat.mul_pos (by decide) hpos) hlow)
    have hlower : 52 + s ≤ m.log2 := by
      rw [Nat.le_log2 hm, Nat.pow_add]
      exact hlow
    have := hupper.resolve_left hm
    omega

/-- How far the interval of a double reaches down, in quarters of the spacing. -/
def gap (e : Fin 2047) (f : Fin fractions) : Nat := if f.val = 0 ∧ 1 < e.val then 1 else 2

/-- All ends of the interval are multiples of the spacing times the denominator. -/
theorem contains_iff {quarters x : Nat} (hpos : 0 < significand e f) (hx : 2 ^ scale e * den = x) :
    (interval e f).contains quarters den = true ↔
      4 * (significand e f * x) ≤ quarters + gap e f * x ∧
      quarters ≤ 4 * (significand e f * x) + 2 * x ∧
      (significand e f % 2 = 1 →
        4 * (significand e f * x) < quarters + gap e f * x ∧
        quarters < 4 * (significand e f * x) + 2 * x) := by
  have hgap : gap e f ≤ 2 := by
    unfold gap
    split <;> decide
  have hbelow : (if f.val = 0 ∧ 1 < e.val then 2 ^ scale e else 2 * 2 ^ scale e) =
      gap e f * 2 ^ scale e := by
    unfold gap
    split
    · rw [Nat.one_mul]
    · rfl
  have hlow : (interval e f).low * den = 4 * (significand e f * x) - gap e f * x := by
    simp only [interval, Nat.shiftLeft_eq, Nat.one_mul, hbelow, Nat.sub_mul, ← hx]
    ring_nf
  have hhigh : (interval e f).high * den = 4 * (significand e f * x) + 2 * x := by
    simp only [interval, Nat.shiftLeft_eq, Nat.one_mul, ← hx]
    ring
  have hreach : gap e f * x ≤ significand e f * x * 2 := by
    calc gap e f * x ≤ 2 * x := Nat.mul_le_mul_right x hgap
      _ ≤ significand e f * x * 2 := by
        rw [Nat.mul_comm]
        exact Nat.mul_le_mul_right 2 (Nat.le_mul_of_pos_left x hpos)
  have hclosed : (interval e f).closed = (significand e f % 2 == 0) := rfl
  rw [Interval.contains, hclosed, hlow, hhigh]
  rcases Nat.mod_two_eq_zero_or_one (significand e f) with hmod | hmod
  · simp only [hmod, beq_self_eq_true, if_true, Bool.and_eq_true, decide_eq_true_eq]
    omega
  · simp only [hmod, show (1 == 0) = false from rfl, Bool.false_eq_true, if_false,
      Bool.and_eq_true, decide_eq_true_eq, true_imp_iff]
    omega

theorem ofScaled_significand (negative : Bool) (e : Fin 2047) (f : Fin fractions) :
    ofScaled negative (significand e f) (scale e) = finite negative e f := by
  have hf := f.isLt
  have he := e.isLt
  unfold ofScaled significand scale
  rcases Nat.eq_zero_or_pos e.val with hzero | hpos
  · obtain rfl : e = 0 := Fin.ext hzero
    rw [if_pos hzero, if_pos hf]
    congr
    exact Fin.ext (Nat.mod_eq_of_lt hf)
  · have hne : ¬ fractions + f.val < fractions := by omega
    have hlast : ¬ fractions + f.val = 2 * fractions := by omega
    have hexponent : e.val - 1 + 1 = e.val := by omega
    simp only [Nat.ne_of_gt hpos, if_false, hne, hlast, hexponent, he, dite_true,
      Nat.add_sub_cancel_left]
    congr
    exact Fin.ext (Nat.mod_eq_of_lt hf)

theorem ofScaled_twice (negative : Bool) (he : 1 < e.val) (hf : f.val = 0) :
    ofScaled negative (2 * fractions) (scale e - 1) = finite negative e f := by
  have helt := e.isLt
  have hexponent : e.val - 1 - 1 + 2 = e.val := by omega
  have hnot : ¬ 2 * fractions < fractions := by decide
  simp only [ofScaled, hnot, if_false, if_true, scale, hexponent, helt, dite_true]
  congr
  exact Fin.ext hf.symm

/-- Whatever quotient, in quarters of a unit, lies in the interval of a double rounds to it. -/
theorem ofRatio_of_contains (negative : Bool) (hden : 0 < den) (hpos : 0 < significand e f)
    (h : (interval e f).contains (4 * (num * one)) den = true) :
    ofRatio negative num den = finite negative e f := by
  have hlt : significand e f < 2 * fractions := significand_lt e f
  have hf : f.val < fractions := f.isLt
  obtain ⟨x, hx⟩ : ∃ x, 2 ^ scale e * den = x := ⟨_, rfl⟩
  have hxpos : 0 < x := hx ▸ Nat.mul_pos (Nat.two_pow_pos _) hden
  obtain ⟨hlow, hhigh, hodd⟩ := (contains_iff hpos hx).mp h
  have hgap : gap e f = 1 ∧ f.val = 0 ∧ 1 < e.val ∨ gap e f = 2 ∧ ¬ (f.val = 0 ∧ 1 < e.val) := by
    unfold gap
    split
    · exact .inl ⟨rfl, ‹_›⟩
    · exact .inr ⟨rfl, ‹_›⟩
  unfold ofRatio
  dsimp only
  generalize num * one = n at *
  have hupper : n / den < 2 * fractions * 2 ^ scale e := by
    rw [Nat.div_lt_iff_lt_mul hden, Nat.mul_assoc, hx]
    have : (significand e f + 1) * x ≤ 2 * fractions * x := Nat.mul_le_mul_right x hlt
    rw [Nat.succ_mul] at this
    omega
  have hshift : ∀ k, den <<< k = 2 ^ k * den := fun k => by rw [Nat.shiftLeft_eq, Nat.mul_comm]
  by_cases hbelow : gap e f = 1 ∧ n < significand e f * x
  · obtain ⟨hone, hn⟩ := hbelow
    obtain ⟨-, hzero, he⟩ := hgap.resolve_right fun hgap => by omega
    have hc : significand e f = fractions := by
      rw [significand, if_neg (by omega), hzero, Nat.add_zero]
    obtain ⟨y, hy⟩ : ∃ y, 2 ^ (scale e - 1) * den = y := ⟨_, rfl⟩
    have hxy : x = 2 * y := by
      rw [← hx, ← hy, ← Nat.mul_assoc, ← Nat.pow_succ']
      congr 2
      unfold scale
      omega
    have hproduct : fractions * (2 * y) = 2 * (fractions * y) := Nat.mul_left_comm _ _ _
    have htwice : 2 * fractions * y = 2 * (fractions * y) := Nat.mul_assoc _ _ _
    have hsmall : y ≤ fractions * y := Nat.le_mul_of_pos_left y (by decide)
    rw [hone, Nat.one_mul] at hlow
    rw [hc, hxy, hproduct] at hn hlow
    have hexponent : (n / den).log2 - 52 = scale e - 1 := by
      refine log2_sub_eq (.inr ?_) ?_
      · rw [Nat.le_div_iff_mul_le hden, Nat.mul_assoc, hy]
        omega
      · rw [Nat.div_lt_iff_lt_mul hden, Nat.mul_assoc, hy]
        omega
    have hround : roundHalfEven n y = 2 * fractions :=
      roundHalfEven_eq (by omega) (by omega) (by omega) fun hodd => absurd hodd (by decide)
    rw [hexponent, hshift, hy, hround]
    exact ofScaled_twice negative he hzero
  · have hexponent : (n / den).log2 - 52 = scale e := by
      refine log2_sub_eq ?_ hupper
      rcases Nat.lt_or_ge 1 e.val with he | he
      · right
        have hfull : fractions ≤ significand e f := le_significand (by omega) f
        rw [Nat.le_div_iff_mul_le hden, Nat.mul_assoc, hx]
        rcases hgap with ⟨hone, hzero, -⟩ | ⟨htwo, hne⟩
        · have : fractions * x ≤ significand e f * x := Nat.mul_le_mul_right x hfull
          omega
        · have hmore : fractions + 1 ≤ significand e f := by
            rw [significand, if_neg (by omega)]
            omega
          have : (fractions + 1) * x ≤ significand e f * x := Nat.mul_le_mul_right x hmore
          rw [Nat.succ_mul] at this
          rw [htwo] at hlow
          omega
      · left
        unfold scale
        omega
    have hreach : gap e f * x ≤ 2 * x := Nat.mul_le_mul_right x (by omega)
    have hround : roundHalfEven n x = significand e f :=
      roundHalfEven_eq hxpos (by omega) (by omega) (by omega)
    rw [hexponent, hshift, hx, hround]
    exact ofScaled_significand negative e f

/-! ## Exact values -/

theorem units_finite (negative : Bool) (e : Fin 2047) (f : Fin fractions) :
    (finite negative e f).units = significand e f * 2 ^ scale e :=
  Nat.shiftLeft_eq _ _

theorem units_eq_zero_iff (negative : Bool) (e : Fin 2047) (f : Fin fractions) :
    (finite negative e f).units = 0 ↔ significand e f = 0 := by
  rw [units_finite, Nat.mul_eq_zero, or_iff_left (Nat.ne_of_gt (Nat.two_pow_pos _))]

theorem ofRatio_units (negative : Bool) (hden : 0 < den) (hpos : 0 < significand e f)
    (h : num * one = (finite negative e f).units * den) :
    ofRatio negative num den = finite negative e f := by
  obtain ⟨x, hx⟩ : ∃ x, 2 ^ scale e * den = x := ⟨_, rfl⟩
  have hxpos : 0 < x := hx ▸ Nat.mul_pos (Nat.two_pow_pos _) hden
  have hgap : 0 < gap e f * x := by
    refine Nat.mul_pos ?_ hxpos
    unfold gap
    split <;> decide
  rw [units_finite, Nat.mul_assoc, hx] at h
  exact ofRatio_of_contains negative hden hpos ((contains_iff hpos hx).mpr (by omega))

/-- The same number: zeros of either sign are. -/
def Same (x y : Double) : Prop :=
  x.isFinite = true ∧ y.isFinite = true ∧ (x = y ∨ x.units = 0 ∧ y.units = 0)

theorem Same.of_eq {x y : Double} (hy : y.isFinite = true) (h : x = y) : Same x y :=
  ⟨h ▸ hy, hy, .inl h⟩

theorem ofInt_same {x : Double} {i : Int} (h : x.toInt? = some i) : (ofInt i).Same x := by
  cases x with
  | nan => cases h
  | infinite negative => cases h
  | finite negative e f =>
    obtain ⟨hwhole, hi⟩ := Option.ite_none_right_eq_some.mp h
    have hnum : (finite negative e f).units / one * one = (finite negative e f).units :=
      Nat.div_mul_cancel (Nat.dvd_of_mod_eq_zero hwhole)
    rcases Nat.eq_zero_or_pos (significand e f) with hzero | hpos
    · have hunits := (units_eq_zero_iff negative e f).mpr hzero
      obtain rfl : i = 0 := by
        rw [hunits, Nat.zero_div] at hi
        cases negative <;> exact (Option.some.inj hi).symm
      rw [isFinite_ofInt_zero]
      exact ⟨rfl, rfl, .inr ⟨by decide, hunits⟩⟩
    · have hunits : 0 < (finite negative e f).units / one := by
        refine Nat.pos_of_ne_zero fun hnone => ?_
        rw [hnone, Nat.zero_mul] at hnum
        exact Nat.ne_of_gt hpos ((units_eq_zero_iff negative e f).mp hnum.symm)
      refine .of_eq rfl ?_
      have habs : i.natAbs = (finite negative e f).units / one := by
        rw [← Option.some.inj hi]
        cases negative with
        | false => exact Int.natAbs_natCast _
        | true => exact (Int.natAbs_neg _).trans (Int.natAbs_natCast _)
      have hsign : decide (i < 0) = negative := by
        rw [← Option.some.inj hi]
        cases negative <;> simp only [if_true, Bool.false_eq_true, if_false, decide_eq_true_eq,
          decide_eq_false_iff_not] <;> omega
      rw [ofInt, hsign, habs]
      exact ofRatio_units negative Nat.one_pos hpos (by rw [hnum, Nat.mul_one])

end Double
end TreeStream
