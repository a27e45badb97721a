/-
# Powers of ten

A number is rounded to decimal places by way of a power of ten, which is made by squaring: what
holds of the factors and goes over to their product holds of the power (`power_of_mul`).

While the exact power is a double, so is every product on the way (`isInt_power_ten`).  Behind
that, products are rounded, but they stay positive and whole and no less than the power of two
below them (`AtLeast`).  From the 309th power on they are infinite (`power_ten_of_le`).
-/
import Mathlib.Tactic
import Reshape.Expression.Library
import Reshape.Proofs.Integers

namespace Reshape

open Magnitude (one limit nearest nearestEven spacing Representable)

/-! ## Whole magnitudes -/

namespace Magnitude

/-- A magnitude with 53 binary digits and zeros behind them is that of a double. -/
theorem representable_mul_two_pow {m k : ℕ} (hm : m < 2 ^ 53) (h : m * 2 ^ k < limit) :
    Representable (m * 2 ^ k) := by
  refine ⟨h, ?_⟩
  by_cases hzero : m = 0
  · rw [hzero, Nat.zero_mul, Nat.zero_mod]
  · have hlt : m * 2 ^ k < 2 ^ (53 + k) := by
      rw [Nat.pow_add]
      exact Nat.mul_lt_mul_of_pos_right hm (Nat.two_pow_pos k)
    have hlog : (m * 2 ^ k).log2 < 53 + k :=
      (Nat.log2_lt (Nat.mul_ne_zero hzero (Nat.two_pow_pos k).ne')).2 hlt
    refine Nat.mod_eq_zero_of_dvd (Dvd.dvd.mul_left ?_ m)
    rw [spacing_eq]
    exact Nat.pow_dvd_pow 2 (by omega)

/-- A number with few enough digits to spare for a power of five is a double times the power of
ten. -/
theorem representable_mul_ten_pow {m k : ℕ} (h : m * 5 ^ k < 2 ^ 53) :
    Representable (m * 10 ^ k * one) := by
  rcases Nat.eq_zero_or_pos m with rfl | hpos
  · rw [Nat.zero_mul, Nat.zero_mul]
    exact representable_zero
  · have hk : k ≤ 22 := by
      by_contra hk
      have hfive : 5 ^ 23 ≤ 5 ^ k := Nat.pow_le_pow_right (by decide) (by omega)
      have hle : 5 ^ k ≤ m * 5 ^ k := Nat.le_mul_of_pos_left _ hpos
      have hlarge : 2 ^ 53 < 5 ^ 23 := by decide
      omega
    obtain ⟨i, hi, hone⟩ := exists_one_eq
    obtain ⟨l, hl, hlimit⟩ := exists_limit_eq
    have hten : m * 10 ^ k * one = m * 5 ^ k * 2 ^ (k + i) := by
      rw [hone, show 10 = 5 * 2 from rfl, Nat.mul_pow, Nat.pow_add]
      ring
    rw [hten]
    refine representable_mul_two_pow h ?_
    calc m * 5 ^ k * 2 ^ (k + i) < 2 ^ 53 * 2 ^ (k + i) :=
          Nat.mul_lt_mul_of_pos_right h (Nat.two_pow_pos _)
      _ = 2 ^ (53 + (k + i)) := (Nat.pow_add _ _ _).symm
      _ ≤ limit := by
        rw [hlimit]
        exact Nat.pow_le_pow_right (by decide) (by omega)

/-- Rounding a multiple of a power of two gives one. -/
theorem two_pow_dvd_nearest (m k : ℕ) : 2 ^ k ∣ nearest (m * 2 ^ k) 1 := by
  rw [nearest, Nat.div_one, Nat.one_mul, spacing_eq]
  generalize (m * 2 ^ k).log2 - 52 = t
  rcases Nat.le_total k t with hkt | htk
  · exact Dvd.dvd.mul_left (Nat.pow_dvd_pow 2 hkt) _
  · -- the spacing divides the multiple, which is its own rounding
    obtain ⟨j, rfl⟩ := Nat.exists_eq_add_of_le htk
    have hmul : m * 2 ^ (t + j) = m * 2 ^ j * 2 ^ t := by
      rw [Nat.pow_add]
      ring
    rw [hmul, nearestEven_mul (Nat.two_pow_pos t), ← hmul]
    exact Nat.dvd_mul_left _ _

/-- Rounding a whole magnitude gives one. -/
theorem one_dvd_nearest (m : ℕ) : one ∣ nearest (m * one) 1 := by
  obtain ⟨k, -, hone⟩ := exists_one_eq
  rw [hone]
  exact two_pow_dvd_nearest m k

end Magnitude

namespace Binary64

open Magnitude

/-! ## Powers by squaring -/

section Powers

variable {P : ℕ → Binary64 → Prop} {b : ℕ}

/-- What goes over to products of up to `b` factors holds of powers multiplied onto a
number. -/
theorem powerFrom_of_mul
    (hmul : ∀ {i j x y}, i + j ≤ b → P i x → P j y → P (i + j) (x.mul y))
    (steps : ℕ) {i j n : ℕ} {acc x : Binary64} (hn : n < 2 ^ steps) (hb : i + j * n ≤ b)
    (hacc : P i acc) (hx : P j x) : P (i + j * n) (powerFrom steps acc x n) := by
  induction steps generalizing i j n acc x with
  | zero =>
    obtain rfl : n = 0 := by omega
    rwa [Nat.mul_zero, Nat.add_zero]
  | succ steps ih =>
    have hdigits : n % 2 + 2 * (n / 2) = n := Nat.mod_add_div n 2
    have hsplit : j * (n % 2) + (j + j) * (n / 2) = j * n := by
      conv => rhs; rw [← hdigits]
      ring
    have hacc' : P (i + j * (n % 2)) (if n % 2 == 1 then mul acc x else acc) := by
      rcases Nat.mod_two_eq_zero_or_one n with h | h
      · rw [h]
        exact hacc
      · have hle : j ≤ j * n := Nat.le_mul_of_pos_right j (by omega)
        rw [h, Nat.mul_one]
        exact hmul (by omega) hacc hx
    rw [powerFrom]
    split
    · rename_i hhalf
      rw [beq_iff_eq] at hhalf
      rw [hhalf, Nat.mul_zero, Nat.add_zero] at hsplit
      rw [← hsplit]
      exact hacc'
    · rename_i hhalf
      rw [beq_iff_eq] at hhalf
      -- the square is needed, so it has no more factors than the power
      have hsquare : j + j ≤ (j + j) * (n / 2) :=
        Nat.le_mul_of_pos_right _ (Nat.pos_of_ne_zero hhalf)
      rw [← hsplit, ← Nat.add_assoc]
      refine ih ?_ (by omega) hacc' (hmul (by omega) hx hx)
      rw [Nat.pow_succ] at hn
      omega

/-- **What goes over to products of up to `b` factors holds of powers.** -/
theorem power_of_mul
    (hmul : ∀ {i j x y}, i + j ≤ b → P i x → P j y → P (i + j) (x.mul y))
    (hone : P 0 (ofInt 1)) {j n : ℕ} {x : Binary64} (hx : P j x) (hb : j * n ≤ b) :
    P (j * n) (x.power n) := by
  have hpower : x.power n = powerFrom (n.log2 + 1) (ofInt 1) x n := by
    rw [power, if_neg (Int.not_lt.2 (Int.natCast_nonneg n)), Int.natAbs_natCast]
  rw [hpower, ← Nat.zero_add (j * n)]
  exact powerFrom_of_mul hmul _ Nat.lt_log2_self (by omega) hone hx

end Powers

/-- **Up to the 22nd, powers of ten are exact.** -/
theorem isInt_power_ten {k : ℕ} (hk : k ≤ 22) : ((ofInt 10).power k).IsInt (10 ^ k) := by
  have hrep : ∀ {i}, i ≤ 22 → Representable ((10 ^ i : ℤ).natAbs * one) := by
    intro i hi
    have hfive : 1 * 5 ^ i < 2 ^ 53 :=
      calc 1 * 5 ^ i ≤ 5 ^ 22 := by
            rw [Nat.one_mul]
            exact Nat.pow_le_pow_right (by decide) hi
        _ < 2 ^ 53 := by decide
    have hrep := representable_mul_ten_pow hfive
    rwa [Nat.one_mul, ← Int.natAbs_natCast (10 ^ i), Nat.cast_pow] at hrep
  have hpower : ((ofInt 10).power k).IsInt (10 ^ (1 * k)) := by
    refine power_of_mul (P := fun i x => x.IsInt (10 ^ i)) (b := 22) ?_ ?_ ?_ (by omega)
    · intro i j x y hij hx hy
      have hxy := IsInt.mul_of_representable hx hy
      rw [← pow_add] at hxy
      exact hxy (hrep hij)
    · rw [pow_zero]
      exact isInt_ofInt (representable_whole (by decide))
    · rw [pow_one]
      exact isInt_ofInt (representable_whole (by decide))
  rwa [Nat.one_mul] at hpower

/-! ## Positive whole numbers -/

/-- The double is a positive whole number no less than 2ᵏ, or infinity. -/
def AtLeast (k : ℕ) (x : Binary64) : Prop :=
  x = .infinite false ∨
    ∃ d : Finite, x = .finite d ∧ d.negative = false ∧ ∃ g, d.units = g * one ∧ 2 ^ k ≤ g

/-- A product of positive whole numbers is one, rounded or not. -/
theorem AtLeast.mul {i j : ℕ} {x y : Binary64} (hx : AtLeast i x) (hy : AtLeast j y) :
    AtLeast (i + j) (x.mul y) := by
  have hzero : ∀ {k : ℕ} {d : Finite}, (∃ g, d.units = g * one ∧ 2 ^ k ≤ g) →
      d.isZero = false := by
    rintro k d ⟨g, hg, hle⟩
    have hpos : 0 < g * one := Nat.mul_pos ((Nat.two_pow_pos k).trans_le hle) Magnitude.one_pos
    rw [Finite.isZero, hg, beq_eq_false_iff_ne]
    exact hpos.ne'
  rcases hx with rfl | ⟨d, rfl, hd, hgd⟩
  · rcases hy with rfl | ⟨e, rfl, he, hge⟩
    · exact Or.inl rfl
    · left
      rw [Binary64.mul, hzero hge, he]
      rfl
  · rcases hy with rfl | ⟨e, rfl, he, hge⟩
    · left
      rw [Binary64.mul, hzero hgd, hd]
      rfl
    · obtain ⟨g, hg, hgle⟩ := hgd
      obtain ⟨h, hh, hhle⟩ := hge
      have hproduct : (finite d).mul (.finite e) = rounded false (g * h * one) 1 := by
        rw [Binary64.mul, hd, he, hg, hh]
        exact rounded_congr false Magnitude.one_pos Nat.one_pos (by ring)
      have hle : 2 ^ (i + j) ≤ g * h := by
        rw [Nat.pow_add]
        exact Nat.mul_le_mul hgle hhle
      rw [hproduct]
      rcases Nat.lt_or_ge (nearest (g * h * one) 1) limit with hlt | hge
      · right
        obtain ⟨q, hq⟩ : ∃ q, nearest (g * h * one) 1 = q * one :=
          exists_eq_mul_left_of_dvd (one_dvd_nearest (g * h))
        refine ⟨_, rounded_of_lt false hlt, rfl, q, hq, ?_⟩
        -- the power of two is a bound before rounding and behind it
        obtain ⟨k, -, hone⟩ := exists_one_eq
        have hbound : 2 ^ (i + j + k) ≤ nearest (g * h * one) 1 := by
          refine two_pow_le_nearest ?_ Nat.one_pos
          rw [Nat.mul_one, hone, Nat.pow_add]
          exact Nat.mul_le_mul_right _ hle
        rw [hq, Nat.pow_add, ← hone] at hbound
        exact Nat.le_of_mul_le_mul_right hbound Magnitude.one_pos
      · exact Or.inl (rounded_eq_infinite false hge)

/-- Powers of ten are positive whole numbers, or infinity. -/
theorem atLeast_power_ten (k : ℕ) : AtLeast (3 * k) ((ofInt 10).power k) := by
  have hwhole : ∀ {n : ℤ} {i : ℕ}, 0 ≤ n → 2 ^ i ≤ n.natAbs →
      Representable (n.natAbs * one) → AtLeast i (ofInt n) := by
    intro n i hn hle hrep
    refine Or.inr ⟨_, rounded_units ⟨decide (n < 0), n.natAbs * one, hrep⟩, ?_, _, rfl, hle⟩
    exact decide_eq_false (Int.not_lt.2 hn)
  exact power_of_mul (P := AtLeast) (b := 3 * k) (fun _ => AtLeast.mul)
    (hwhole (by decide) (by decide) (representable_whole (by decide)))
    (hwhole (by decide) (by decide) (representable_whole (by decide))) le_rfl

/-- **From the 309th on, powers of ten are infinite.** -/
theorem power_ten_of_le {k : ℕ} (hk : 309 ≤ k) : (ofInt 10).power k = .infinite false := by
  rcases Nat.lt_or_ge k 342 with hlt | hge
  · have hall : ∀ i < 33, (ofInt 10).power (309 + i : ℕ) = .infinite false := by decide +kernel
    obtain ⟨i, rfl⟩ := Nat.exists_eq_add_of_le hk
    exact hall i (by omega)
  · -- three binary digits for each factor are enough to leave the doubles
    refine (atLeast_power_ten k).resolve_right ?_
    rintro ⟨d, -, -, g, hg, hle⟩
    obtain ⟨i, hi, hone⟩ := exists_one_eq
    obtain ⟨l, hl, hlimit⟩ := exists_limit_eq
    have hlarge : limit ≤ d.units :=
      calc limit ≤ 2 ^ (3 * k) * one := by
            rw [hlimit, hone, ← Nat.pow_add]
            exact Nat.pow_le_pow_right (by decide) (by omega)
        _ ≤ g * one := Nat.mul_le_mul_right _ hle
        _ = d.units := hg.symm
    exact absurd d.representable.1 (Nat.not_lt.2 hlarge)

end Binary64

end Reshape
