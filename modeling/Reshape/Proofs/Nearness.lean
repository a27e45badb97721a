/-
# Numbers and the doubles nearest to them

Rounding takes a quotient to a magnitude from which no other is nearer
(`distance_nearest_le`): a magnitude in between the multiples of the spacing lies below the power
of two under the quotient, which is such a multiple itself.

A number has an exact value, and it is a double if a finite double has this value.  Numbers
are compared as the doubles nearest to them (`sameNumber_iff`), so numbers that are doubles are
compared by value.  Among the others it is those of at least 2⁵³ in magnitude that can be taken
for one another, since 2⁵³ itself is a double and all whole numbers below it are
(`sameNumber_iff_of_abs_lt`).
-/
import Reshape.Expression.Value
import Reshape.Proofs.Rounding

namespace Reshape

/-! ## What is nearest -/

namespace Magnitude

/-- The distance of two natural numbers. -/
def distance (m n : Nat) : Nat := m - n + (n - m)

/-- A quotient is rounded to the whole number below it or to the one above, each at most a half
away. -/
theorem nearestEven_cases (num den : Nat) :
    nearestEven num den = num / den ∧ 2 * (num % den) ≤ den ∨
      nearestEven num den = num / den + 1 ∧ den ≤ 2 * (num % den) := by
  unfold nearestEven
  dsimp only
  split_ifs <;> omega

/-- Rounding to a whole number goes no further than a half. -/
theorem two_mul_distance_nearestEven_le {num den : Nat} (hden : 0 < den) :
    2 * distance num (nearestEven num den * den) ≤ den := by
  have hdiv : num / den * den + num % den = num := by
    rw [Nat.mul_comm]
    exact Nat.div_add_mod num den
  have hlt : num % den < den := Nat.mod_lt num hden
  have hsucc : (num / den + 1) * den = num / den * den + den := Nat.succ_mul _ _
  unfold distance
  rcases nearestEven_cases num den with ⟨heq, h⟩ | ⟨heq, h⟩ <;> rw [heq] <;> omega

/-- Rounding a quotient to a whole number, none is nearer. -/
theorem distance_nearestEven_le {num den : Nat} (hden : 0 < den) (k : Nat) :
    distance num (nearestEven num den * den) ≤ distance num (k * den) := by
  have hdiv : num / den * den + num % den = num := by
    rw [Nat.mul_comm]
    exact Nat.div_add_mod num den
  have hlt : num % den < den := Nat.mod_lt num hden
  have hsucc : (num / den + 1) * den = num / den * den + den := Nat.succ_mul _ _
  -- another whole number is on one side of the quotient or on the other
  have hside : k * den ≤ num / den * den ∨ (num / den + 1) * den ≤ k * den := by
    rcases Nat.lt_or_ge (num / den) k with h | h
    · exact .inr (Nat.mul_le_mul_right den h)
    · exact .inl (Nat.mul_le_mul_right den h)
  unfold distance
  rcases nearestEven_cases num den with ⟨heq, h⟩ | ⟨heq, h⟩ <;> rw [heq] <;> omega

/-- **No magnitude is nearer to a quotient than the one it is rounded to.** -/
theorem distance_nearest_le (num : Nat) {den u : Nat} (hden : 0 < den) (hu : u % spacing u = 0) :
    distance num (nearest num den * den) ≤ distance num (u * den) := by
  have hs := spacing_pos (num / den)
  have hmultiple : ∀ k, distance num (nearest num den * den) ≤
      distance num (k * spacing (num / den) * den) := by
    intro k
    have hassoc : ∀ m, m * spacing (num / den) * den = m * (den * spacing (num / den)) :=
      fun m => by ring
    rw [nearest, hassoc, hassoc]
    exact distance_nearestEven_le (Nat.mul_pos hden hs) k
  rcases Nat.lt_or_ge u.log2 (num / den).log2 with hlog | hlog
  · -- the power of two below the quotient is at least as near
    have hq : num / den ≠ 0 := by
      intro h
      rw [h, Nat.log2_zero] at hlog
      exact Nat.not_lt_zero _ hlog
    have hlt : u < 2 ^ (num / den).log2 :=
      Nat.lt_log2_self.trans_le (Nat.pow_le_pow_right (by decide) hlog)
    have hle : 2 ^ (num / den).log2 * den ≤ num :=
      (Nat.le_div_iff_mul_le hden).1 (Nat.log2_self_le hq)
    have hmul : 2 ^ (num / den).log2 / spacing (num / den) * spacing (num / den) =
        2 ^ (num / den).log2 :=
      Nat.div_mul_cancel (Nat.pow_dvd_pow 2 (by omega))
    have hpow := hmultiple (2 ^ (num / den).log2 / spacing (num / den))
    rw [hmul] at hpow
    have hu : u * den ≤ 2 ^ (num / den).log2 * den := Nat.mul_le_mul_right den hlt.le
    refine hpow.trans ?_
    unfold distance
    omega
  · -- the spacing at the quotient divides the magnitude
    have hdvd : spacing (num / den) ∣ u :=
      (Nat.pow_dvd_pow 2 (by omega)).trans (Nat.dvd_of_mod_eq_zero hu)
    rw [← Nat.div_mul_cancel hdvd]
    exact hmultiple _

/-- Rounding at most doubles a quotient. -/
theorem nearest_mul_le (num : Nat) {den : Nat} (hden : 0 < den) :
    nearest num den * den ≤ 2 * num := by
  have hzero := distance_nearest_le num hden representable_zero.2
  unfold distance at hzero
  omega

/-- What is nearer than another magnitude and than zero is so with signs too. -/
theorem natAbs_signed_sub_le {a b : Bool} {n m u : Nat} (hu : distance n m ≤ distance n u)
    (hzero : distance n m ≤ distance n 0) :
    ((if a then -(n : Int) else n) - (if a then -(m : Int) else m)).natAbs ≤
      ((if a then -(n : Int) else n) - (if b then -(u : Int) else u)).natAbs := by
  unfold distance at hu hzero
  cases a <;> cases b <;> simp only [Bool.false_eq_true, if_true, if_false] <;> omega

/-- Powers of two within the limit are doubles. -/
theorem representable_two_pow {k : Nat} (h : 2 ^ k < limit) : Representable (2 ^ k) := by
  refine ⟨h, Nat.mod_eq_zero_of_dvd ?_⟩
  rw [spacing_eq, Nat.log2_two_pow]
  exact Nat.pow_dvd_pow 2 (Nat.sub_le k 52)

end Magnitude

/-! ## Values -/

open Magnitude

/-- The exact value of a finite double. -/
def Finite.value (d : Finite) : ℚ := d.signed / one

/-- The exact value of a number. -/
def Number.value : Number → ℚ
  | .whole n _ => n
  | .real d => d.value

namespace Finite

theorem one_pos : (0 : ℚ) < one := Nat.cast_pos.2 Magnitude.one_pos

theorem value_eq_iff {d e : Finite} : d.value = e.value ↔ d.signed = e.signed := by
  rw [value, value, div_left_inj' one_pos.ne', Int.cast_inj]

/-- The value of a whole magnitude. -/
theorem value_mul_one (negative : Bool) {n : Nat} (h : Representable (n * one)) :
    (⟨negative, n * one, h⟩ : Finite).value = if negative then -(n : ℚ) else n := by
  have hcancel : (n : ℚ) * one / one = n := mul_div_cancel_right₀ _ one_pos.ne'
  rw [value, signed]
  cases negative with
  | true =>
    rw [if_pos rfl, if_pos rfl, Int.cast_neg, Int.cast_natCast, Nat.cast_mul, neg_div, hcancel]
  | false =>
    rw [if_neg Bool.false_ne_true, if_neg Bool.false_ne_true, Int.cast_natCast, Nat.cast_mul,
      hcancel]

/-- How far a double is from a whole number, counted in units. -/
theorem abs_int_sub_value (n : Int) (d : Finite) :
    |(n : ℚ) - d.value| = ((n * one - d.signed).natAbs : ℚ) / one := by
  have hn : (n : ℚ) = ((n * one : Int) : ℚ) / one := by
    rw [Int.cast_mul, Int.cast_natCast, mul_div_cancel_right₀ _ one_pos.ne']
  rw [hn, value, ← sub_div, ← Int.cast_sub, abs_div, abs_of_pos one_pos, Nat.cast_natAbs,
    Int.cast_abs]

end Finite

/-- A quotient that is rounded to less than the limit is rounded to a finite double. -/
theorem Binary64.rounded_of_lt (negative : Bool) {num den : Nat}
    (h : nearest num den < limit) :
    rounded negative num den = .finite ⟨negative, nearest num den, representable_nearest h⟩ :=
  dif_pos h

namespace Number

variable {x y : Number}

/-- The magnitudes of the integer form stay far below the limit. -/
theorem nearest_whole_lt {n : Int} (hn : Fits64 n) : nearest (n.natAbs * one) 1 < limit := by
  obtain ⟨k, hk, hone⟩ := exists_one_eq
  obtain ⟨l, hl, hlimit⟩ := exists_limit_eq
  have hle := nearest_mul_le (n.natAbs * one) Nat.one_pos
  have hn : n.natAbs < 2 ^ 64 := by
    unfold Fits64 Word.minInt64 Word.maxUInt64 at hn
    omega
  calc nearest (n.natAbs * one) 1 ≤ 2 * (n.natAbs * one) := by rwa [Nat.mul_one] at hle
    _ < 2 * (2 ^ 64 * one) :=
      Nat.mul_lt_mul_of_pos_left
        (Nat.mul_lt_mul_of_pos_right hn Magnitude.one_pos) (by decide)
    _ = 2 ^ (65 + k) := by rw [hone, ← Nat.mul_assoc, ← Nat.pow_succ', ← Nat.pow_add]
    _ ≤ limit := by
      rw [hlimit]
      exact Nat.pow_le_pow_right (by decide) (by omega)

/-- The double nearest to a number. -/
def double : Number → Finite
  | whole n hn =>
    ⟨n < 0, nearest (n.natAbs * one) 1, representable_nearest (nearest_whole_lt hn)⟩
  | real d => d

/-- A number is taken as the double nearest to it, which is finite. -/
theorem toBinary64_eq (x : Number) : x.toBinary64 = .finite x.double := by
  cases x with
  | real d => rfl
  | whole n hn =>
    rw [toBinary64, Binary64.ofInt, Binary64.rounded_of_lt _ (nearest_whole_lt hn), double]

/-- A whole number in units. -/
theorem int_mul_one (n : Int) :
    n * one = if (decide (n < 0)) = true then -((n.natAbs * one : Nat) : Int)
      else (n.natAbs * one : Nat) := by
  rw [Nat.cast_mul]
  by_cases h : n < 0
  · rw [if_pos (decide_eq_true h), ← Int.neg_mul, Int.ofNat_natAbs_of_nonpos h.le, Int.neg_neg]
  · rw [if_neg (by simpa using h), Int.natAbs_of_nonneg (not_lt.1 h)]

/-- **No double is nearer to a number than its own.** -/
theorem abs_sub_double_le (x : Number) (d : Finite) :
    |x.value - x.double.value| ≤ |x.value - d.value| := by
  cases x with
  | real e =>
    rw [value, double, sub_self, abs_zero]
    exact abs_nonneg _
  | whole n hn =>
    have hnear := distance_nearest_le (n.natAbs * one) Nat.one_pos d.representable.2
    -- a double on the other side of zero is no nearer than zero
    have hzero := distance_nearest_le (n.natAbs * one) Nat.one_pos representable_zero.2
    rw [Nat.mul_one, Nat.mul_one] at hnear hzero
    rw [value, Finite.abs_int_sub_value, Finite.abs_int_sub_value]
    refine div_le_div_of_nonneg_right (Nat.cast_le.2 ?_) Finite.one_pos.le
    rw [int_mul_one]
    exact natAbs_signed_sub_le hnear hzero

/-- The number is a double. -/
def IsDouble (x : Number) : Prop := ∃ d : Finite, d.value = x.value

theorem value_double_of_isDouble (h : x.IsDouble) : x.double.value = x.value := by
  obtain ⟨d, hd⟩ := h
  have hle := abs_sub_double_le x d
  rw [hd, sub_self, abs_zero, abs_nonpos_iff, sub_eq_zero] at hle
  exact hle.symm

theorem isDouble_real (d : Finite) : (real d).IsDouble := ⟨d, rfl⟩

/-- Below 2⁵³ every number is a double. -/
theorem isDouble_of_abs_lt (h : |x.value| < 2 ^ 53) : x.IsDouble := by
  cases x with
  | real d => exact isDouble_real d
  | whole n hn =>
    have hlt : n.natAbs < Number.exactLimit := by
      rw [value, ← Int.cast_abs, Int.abs_eq_natAbs, Int.cast_natCast] at h
      exact_mod_cast h
    refine ⟨⟨n < 0, n.natAbs * one, Binary64.representable_whole hlt⟩, ?_⟩
    rw [Finite.value, Finite.signed, ← int_mul_one, Int.cast_mul, Int.cast_natCast,
      mul_div_cancel_right₀ _ Finite.one_pos.ne', value]

/-- 2⁵³ and its opposite are doubles. -/
theorem exists_value_eq_two_pow (negative : Bool) :
    ∃ d : Finite, d.value = if negative then -2 ^ 53 else 2 ^ 53 := by
  have hrep : Representable (2 ^ 53 * one) := by
    obtain ⟨k, hk, hone⟩ := exists_one_eq
    obtain ⟨l, hl, hlimit⟩ := exists_limit_eq
    rw [hone, ← Nat.pow_add]
    refine representable_two_pow ?_
    rw [hlimit]
    exact Nat.pow_lt_pow_right (by decide) (by omega)
  refine ⟨⟨negative, 2 ^ 53 * one, hrep⟩, ?_⟩
  rw [Finite.value_mul_one, Nat.cast_pow, Nat.cast_ofNat]

/-- A number of at least 2⁵³ in magnitude is rounded to one. -/
theorem two_pow_le_abs_double (h : 2 ^ 53 ≤ |x.value|) : 2 ^ 53 ≤ |x.double.value| := by
  -- the double of magnitude 2⁵³ on the side of the number is between it and zero
  obtain ⟨d, hd⟩ := exists_value_eq_two_pow (decide (x.value < 0))
  have hdist : |x.value - d.value| = |x.value| - 2 ^ 53 := by
    rcases lt_or_ge x.value 0 with hneg | hpos
    · rw [abs_of_neg hneg] at h ⊢
      rw [hd, decide_eq_true hneg, if_pos rfl, abs_of_nonpos (by linarith)]
      ring
    · rw [abs_of_nonneg hpos] at h ⊢
      rw [hd, decide_eq_false (not_lt.2 hpos), if_neg Bool.false_ne_true,
        abs_of_nonneg (by linarith)]
  have hnear : |x.value - x.double.value| ≤ |x.value| - 2 ^ 53 := hdist ▸ abs_sub_double_le x d
  have htriangle : |x.value| - |x.double.value| ≤ |x.value - x.double.value| :=
    abs_sub_abs_le_abs_sub _ _
  linarith

/-! ## The comparison of numbers -/

/-- **Numbers are compared as the doubles nearest to them.** -/
theorem sameNumber_iff :
    Expression.sameNumber x y = true ↔ x.double.value = y.double.value := by
  rw [Expression.sameNumber, toBinary64_eq x, toBinary64_eq y, Finite.value_eq_iff, beq_iff_eq,
    Binary64.order?, Option.some_inj, Finite.order, compare_eq_iff_eq]

theorem sameNumber_comm : Expression.sameNumber x y = Expression.sameNumber y x :=
  Bool.eq_iff_iff.2 (by rw [sameNumber_iff, sameNumber_iff, eq_comm])

theorem sameNumber_iff_of_isDouble (hx : x.IsDouble) (hy : y.IsDouble) :
    Expression.sameNumber x y = true ↔ x.value = y.value := by
  rw [sameNumber_iff, value_double_of_isDouble hx, value_double_of_isDouble hy]

/-- **A number below 2⁵³ in magnitude is taken for another only if it is the same.** -/
theorem sameNumber_iff_of_abs_lt (hx : |x.value| < 2 ^ 53) :
    Expression.sameNumber x y = true ↔ x.value = y.value := by
  rcases lt_or_ge |y.value| (2 ^ 53) with hy | hy
  · exact sameNumber_iff_of_isDouble (isDouble_of_abs_lt hx) (isDouble_of_abs_lt hy)
  · have hne : x.value ≠ y.value := fun heq => absurd (heq ▸ hx) (not_lt.2 hy)
    rw [sameNumber_iff, value_double_of_isDouble (isDouble_of_abs_lt hx)]
    refine iff_of_false (fun heq => ?_) hne
    exact absurd (heq ▸ hx) (not_lt.2 (two_pow_le_abs_double hy))

end Number

end Reshape
