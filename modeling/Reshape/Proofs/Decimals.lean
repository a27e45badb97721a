/-
# Numerals and the doubles nearest to them

A numeral has an exact value (`Decimal.value`).  The double that it is read as is one to which no
other is nearer (`Decimal.exists_nearest`), until the value is half a place beyond the largest
double: from there on there is no double for it (`Decimal.toBinary64_of_overflow`).
-/
import Mathlib.Tactic
import Reshape.Proofs.Nearness

namespace Reshape

namespace Magnitude

/-! ## The last place of the largest double -/

/-- **A quotient is rounded to the limit from half a place beyond the largest double on**, since
the limit is the even one of the two. -/
theorem limit_le_nearest_iff {num den : ℕ} (hden : 0 < den) {k : ℕ} (hk : limit = 2 ^ (53 + k)) :
    limit ≤ nearest num den ↔ (2 ^ 54 - 1) * 2 ^ k * den ≤ 2 * num := by
  have hplaces : limit = 2 ^ 53 * 2 ^ k := by rw [hk, Nat.pow_add]
  have hlargest : limit = (2 ^ 53 - 1) * 2 ^ k + 2 ^ k := by
    rw [hplaces]
    omega
  have hmul : limit * den = (2 ^ 53 - 1) * 2 ^ k * den + 2 ^ k * den := by
    rw [hlargest, Nat.add_mul]
  have hhalf : (2 ^ 54 - 1) * 2 ^ k * den = 2 * ((2 ^ 53 - 1) * 2 ^ k * den) + 2 ^ k * den := by
    rw [Nat.mul_assoc, Nat.mul_assoc]
    omega
  constructor
  · intro h
    -- the largest double is no nearer
    have hrep : (2 ^ 53 - 1) * 2 ^ k % spacing ((2 ^ 53 - 1) * 2 ^ k) = 0 := by
      have hspacing : spacing ((2 ^ 53 - 1) * 2 ^ k) = 2 ^ k :=
        spacing_shifted (by decide) (by decide)
      rw [hspacing, Nat.mul_mod_left]
    have hnear := distance_nearest_le num hden hrep
    have hle : limit * den ≤ nearest num den * den := Nat.mul_le_mul_right den h
    have hpos : 0 < 2 ^ k * den := Nat.mul_pos (Nat.two_pow_pos k) hden
    unfold distance at hnear
    omega
  · intro h
    rcases Nat.lt_or_ge num (limit * den) with hlt | hge
    · have hspacing : spacing (num / den) = 2 ^ k := by
        refine spacing_below_pow ?_ ?_
        · rw [Nat.le_div_iff_mul_le hden, ← hk, hlargest, Nat.add_sub_cancel]
          omega
        · rwa [← hk, Nat.div_lt_iff_lt_mul hden]
      have hnearest : nearest num den = 2 ^ 53 * 2 ^ k :=
        nearest_eq hden hspacing (by rw [← hplaces]; omega) (by rw [← hplaces]; omega)
          (fun hodd => absurd hodd (by decide))
      rw [hnearest, hplaces]
    · exact limit_le_nearest hge hden

end Magnitude

open Magnitude

namespace Binary64

/-- Half a place beyond the largest double. -/
def overflow : ℚ := 2 ^ 1024 - 2 ^ 970

/-- How far a double is from a quotient, counted in units. -/
theorem abs_div_sub_value (num : ℕ) {den : ℕ} (hden : 0 < den) (d : Finite) :
    |(num : ℚ) / (den * one) - d.value| =
      ((num - d.signed * den : ℤ).natAbs : ℚ) / (den * one) := by
  have hden : (0 : ℚ) < den := Nat.cast_pos.2 hden
  have hvalue : d.value = ((d.signed * den : ℤ) : ℚ) / (den * one) := by
    rw [Finite.value, Int.cast_mul, Int.cast_natCast, mul_comm (d.signed : ℚ),
      mul_div_mul_left _ _ hden.ne']
  rw [hvalue, ← sub_div, abs_div, abs_of_pos (mul_pos hden Finite.one_pos), Nat.cast_natAbs,
    Int.cast_abs, Int.cast_sub, Int.cast_natCast]

/-- **A quotient below the limit is rounded to a double to which no other is nearer.** -/
theorem exists_nearest {num den : ℕ} (hden : 0 < den) (h : nearest num den < limit) :
    ∃ d : Finite, rounded false num den = .finite d ∧
      ∀ e : Finite, |(num : ℚ) / (den * one) - d.value| ≤ |(num : ℚ) / (den * one) - e.value| := by
  refine ⟨_, rounded_of_lt false h, fun e => ?_⟩
  have hscale : (0 : ℚ) < den * one := mul_pos (Nat.cast_pos.2 hden) Finite.one_pos
  have hnear := distance_nearest_le num hden e.representable.2
  -- a double on the other side of zero is no nearer than zero
  have hzero := distance_nearest_le num hden representable_zero.2
  rw [Nat.zero_mul] at hzero
  have hsigned := natAbs_signed_sub_le (a := false) (b := e.negative) hnear hzero
  have hcast : e.signed * den = if e.negative then -((e.units * den : ℕ) : ℤ)
      else (e.units * den : ℕ) := by
    rw [Finite.signed, Nat.cast_mul]
    split_ifs <;> ring
  rw [abs_div_sub_value _ hden, abs_div_sub_value _ hden, hcast]
  refine div_le_div_of_nonneg_right (Nat.cast_le.2 ?_) hscale.le
  exact hsigned

/-- **A quotient is too large for doubles if it is rounded to the limit.** -/
theorem overflow_le_iff {num den : ℕ} (hden : 0 < den) :
    overflow ≤ (num : ℚ) / (den * one) ↔ limit ≤ nearest num den := by
  obtain ⟨k, hk, hone⟩ := exists_one_eq
  obtain ⟨l, hl, hlimit⟩ := exists_limit_eq
  rw [limit_le_nearest_iff hden (k := 971 + k) (hlimit.trans (congrArg _ (by omega)))]
  have hscale : (0 : ℚ) < den * one := mul_pos (Nat.cast_pos.2 hden) Finite.one_pos
  have hover : 2 * (overflow * (den * one)) = (((2 ^ 54 - 1) * 2 ^ (971 + k) * den : ℕ) : ℚ) := by
    have hplaces : (2 : ℚ) ^ 1024 = 2 ^ 54 * 2 ^ 970 := by rw [← pow_add]
    have hsucc : (2 : ℚ) ^ 971 = 2 ^ 970 * 2 := pow_succ 2 970
    have hsub : ((2 ^ 54 - 1 : ℕ) : ℚ) = 2 ^ 54 - 1 := by norm_num
    rw [hone, overflow, hplaces, Nat.cast_mul, Nat.cast_mul, hsub, Nat.cast_pow, Nat.cast_pow,
      pow_add, Nat.cast_ofNat, hsucc]
    generalize (2 : ℚ) ^ 970 = place
    ring
  rw [le_div_iff₀ hscale, ← @Nat.cast_le ℚ, ← hover, Nat.cast_mul, Nat.cast_ofNat]
  exact (mul_le_mul_iff_right₀ (by norm_num)).symm

end Binary64

/-! ## Numerals -/

namespace Decimal

open Binary64 (overflow)

/-- The exact value of a numeral. -/
def value (d : Decimal) : ℚ := d.digits * 10 ^ d.exponent

theorem value_eq_div (d : Decimal) : d.value =
    (d.digits * 10 ^ d.exponent.toNat * one : ℕ) / ((10 ^ (-d.exponent).toNat : ℕ) * one) := by
  have hten : (10 : ℚ) ≠ 0 := by norm_num
  have hpow : (10 : ℚ) ^ d.exponent = 10 ^ d.exponent.toNat / 10 ^ (-d.exponent).toNat := by
    rw [← zpow_natCast, ← zpow_natCast, ← zpow_sub₀ hten]
    congr 1
    omega
  rw [value, hpow]
  push_cast
  rw [mul_div_mul_right _ _ Finite.one_pos.ne', mul_div_assoc]

variable {d : Decimal}

/-- **A numeral that is too large is read as infinity.** -/
theorem toBinary64_of_overflow (h : overflow ≤ d.value) (negative : Bool) :
    d.toBinary64 negative = .infinite negative := by
  have hden : 0 < 10 ^ (-d.exponent).toNat := Nat.pow_pos (by decide)
  rw [value_eq_div, Binary64.overflow_le_iff hden] at h
  rw [toBinary64_eq_rounded, Binary64.rounded_eq_infinite negative h]

/-- **A numeral that is not too large is read as a double to which no other is nearer.** -/
theorem exists_nearest (h : d.value < overflow) :
    ∃ x : Finite, d.toBinary64 false = .finite x ∧
      ∀ y : Finite, |d.value - x.value| ≤ |d.value - y.value| := by
  have hden : 0 < 10 ^ (-d.exponent).toNat := Nat.pow_pos (by decide)
  rw [value_eq_div, ← not_le, Binary64.overflow_le_iff hden, not_le] at h
  rw [toBinary64_eq_rounded, value_eq_div]
  exact Binary64.exists_nearest hden h

end Decimal

end Reshape
