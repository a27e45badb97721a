/-
# Double-precision numbers

Every finite double is a whole multiple of 2⁻¹⁰⁷⁴, the smallest positive one.  A
finite double is therefore held as its sign and its magnitude counted in that unit.
The magnitudes that occur are those whose binary digits after the 53rd are all zero;
this is part of the type, so that two finite doubles are the same exactly when their
signs and their counts are.

`rounded` is the one operation that leaves this set of magnitudes: it takes an exact
quotient of natural numbers to the nearest double, a tie to the even neighbour.  All
arithmetic is an exact computation on counts followed by `rounded`.
-/

namespace Reshape

/-! ## Magnitudes -/

namespace Magnitude

/-- The number of units in one. -/
def one : Nat := Nat.pow 2 1074

/-- The number of units of the first power of two beyond the largest double. -/
def limit : Nat := Nat.pow 2 2098

/-- One is not zero. -/
theorem one_pos : 0 < one := by
  unfold one; apply Nat.pow_pos; decide

/-- The limit is not zero. -/
theorem limit_pos : 0 < limit := by
  unfold limit; apply Nat.pow_pos; decide

/-- The distance, in units, between doubles of about the magnitude `u`. -/
def spacing (u : Nat) : Nat := Nat.pow 2 (u.log2 - 52)

/-- A count of units that some finite double has. -/
def Representable (u : Nat) : Prop := u < limit ∧ u % spacing u = 0

instance (u : Nat) : Decidable (Representable u) := by
  unfold Representable; infer_instance

/-- The whole number nearest to `num / den`, a tie to the even one. -/
def nearestEven (num den : Nat) : Nat :=
  let q := num / den
  let r := num % den
  if 2 * r < den then q else if den < 2 * r then q + 1 else q + q % 2

/-- The magnitude nearest to `num / den` units among those with 53 binary digits. -/
def nearest (num den : Nat) : Nat :=
  nearestEven num (den * spacing (num / den)) * spacing (num / den)

/-! ### Rounding yields 53 binary digits -/

/-- Neighbours differ. -/
theorem spacing_pos (u : Nat) : 0 < spacing u := Nat.two_pow_pos _

/-- Rounding adds at most one to the truncated quotient. -/
theorem nearestEven_le (num den : Nat) : nearestEven num den ≤ num / den + 1 := by
  unfold nearestEven
  dsimp only
  split
  · omega
  · split
    · omega
    · have := Nat.mod_lt (num / den) (by decide : 0 < 2); omega

/-- Rounding takes nothing from the truncated quotient. -/
theorem le_nearestEven (num den : Nat) : num / den ≤ nearestEven num den := by
  unfold nearestEven
  dsimp only
  split
  · omega
  · split <;> omega

/-- Fewer than 54 binary digits leave the spacing at one unit. -/
theorem spacing_eq_one {u : Nat} (h : u < Nat.pow 2 53) : spacing u = 1 := by
  rw [Nat.pow_eq] at h
  rw [spacing, Nat.pow_eq]
  have : u.log2 ≤ 52 := by
    by_cases h0 : u = 0
    · simp [h0]
    · have := (Nat.log2_lt h0).2 h
      omega
  rw [Nat.sub_eq_zero_of_le this, Nat.pow_zero]

/-- Numbers of the form `m · 2ᵏ` with 53 binary digits in `m` have spacing `2ᵏ`. -/
theorem spacing_shifted {m k : Nat} (hlo : Nat.pow 2 52 ≤ m) (hhi : m < Nat.pow 2 53) :
    spacing (m * Nat.pow 2 k) = Nat.pow 2 k := by
  simp only [spacing, Nat.pow_eq] at *
  have hm : m ≠ 0 := by
    have := Nat.two_pow_pos 52; omega
  have hne : m * 2 ^ k ≠ 0 := Nat.mul_ne_zero hm (Nat.ne_of_gt (Nat.two_pow_pos k))
  have : (m * 2 ^ k).log2 = 52 + k := by
    rw [Nat.log2_eq_iff hne]
    constructor
    · rw [Nat.pow_add]
      exact Nat.mul_le_mul_right _ hlo
    · rw [show 52 + k + 1 = 53 + k by omega, Nat.pow_add]
      exact Nat.mul_lt_mul_of_pos_right hhi (Nat.two_pow_pos k)
  rw [this, Nat.add_sub_cancel_left]

/-- The 54-digit carry `2⁵³ · 2ᵏ` has spacing `2ᵏ⁺¹`. -/
theorem spacing_carry (k : Nat) :
    spacing (Nat.pow 2 53 * Nat.pow 2 k) = Nat.pow 2 (k + 1) := by
  simp only [Nat.pow_eq]
  rw [show 2 ^ 53 * 2 ^ k = 2 ^ 52 * 2 ^ (k + 1) by rw [Nat.pow_succ]; omega]
  exact spacing_shifted (Nat.le_refl _) (by decide)

/-- A rounded magnitude is a multiple of its spacing. -/
theorem nearest_mod_spacing (num den : Nat) :
    nearest num den % spacing (nearest num den) = 0 := by
  unfold nearest
  generalize hq : num / den = q
  by_cases hsmall : q < 2 ^ 53
  · rw [spacing_eq_one hsmall, Nat.mul_one, Nat.mul_one]
    have hle := nearestEven_le num den
    rw [hq] at hle
    generalize nearestEven num den = m at *
    by_cases hm : m < 2 ^ 53
    · rw [spacing_eq_one hm, Nat.mod_one]
    · have : m = 2 ^ 53 := by omega
      subst this
      decide
  · have hq0 : q ≠ 0 := by
      have := Nat.two_pow_pos 53; omega
    obtain ⟨k, hk⟩ : ∃ k, q.log2 = 52 + k := by
      have : 53 ≤ q.log2 := (Nat.le_log2 hq0).2 (by omega)
      exact ⟨q.log2 - 52, by omega⟩
    have hs : spacing q = 2 ^ k := by
      rw [spacing, hk, Nat.add_sub_cancel_left, Nat.pow_eq]
    rw [hs]
    have hlo : 2 ^ 52 ≤ q / 2 ^ k := by
      rw [Nat.le_div_iff_mul_le (Nat.two_pow_pos k), ← Nat.pow_add, ← hk]
      exact Nat.log2_self_le hq0
    have hhi : q / 2 ^ k < 2 ^ 53 := by
      rw [Nat.div_lt_iff_lt_mul (Nat.two_pow_pos k), ← Nat.pow_add,
        show 53 + k = q.log2 + 1 by omega]
      exact Nat.lt_log2_self
    have h1 := nearestEven_le num (den * 2 ^ k)
    have h2 := le_nearestEven num (den * 2 ^ k)
    rw [← Nat.div_div_eq_div_mul, hq] at h1 h2
    generalize nearestEven num (den * 2 ^ k) = m at *
    by_cases hm : m < 2 ^ 53
    · have := @spacing_shifted m k (Nat.le_trans hlo h2) hm
      rw [Nat.pow_eq] at this
      rw [this, Nat.mul_mod_left]
    · have : m = 2 ^ 53 := by omega
      subst this
      have := spacing_carry k
      simp only [Nat.pow_eq] at this
      rw [this, show 2 ^ 53 * 2 ^ k = 2 ^ 52 * 2 ^ (k + 1) by
        rw [Nat.pow_succ]; omega, Nat.mul_mod_left]

/-- A rounded magnitude below the limit is representable. -/
theorem representable_nearest {num den : Nat} (h : nearest num den < limit) :
    Representable (nearest num den) := ⟨h, nearest_mod_spacing num den⟩

/-- A whole number of units is halfway to nothing else. -/
theorem nearestEven_mul {q den : Nat} (h : 0 < den) : nearestEven (q * den) den = q := by
  simp [nearestEven, Nat.mul_mod_left, Nat.mul_div_cancel _ h, h]

/-- Rounding keeps a representable magnitude. -/
theorem nearest_of_representable {u : Nat} (h : Representable u) : nearest u 1 = u := by
  have hdvd : spacing u ∣ u := Nat.dvd_of_mod_eq_zero h.2
  obtain ⟨q, hq⟩ := hdvd
  unfold nearest
  rw [Nat.div_one, Nat.one_mul]
  conv => lhs; arg 1; arg 1; rw [hq, Nat.mul_comm]
  rw [nearestEven_mul (spacing_pos u), Nat.mul_comm]
  exact hq.symm

end Magnitude

/-! ## Doubles -/

/-- A finite double: its sign and its magnitude in units of 2⁻¹⁰⁷⁴. -/
structure Finite where
  negative : Bool
  units : Nat
  representable : Magnitude.Representable units
  deriving DecidableEq

/-- A double: finite, infinite, or the result of an operation that has none. -/
inductive Binary64
  | finite (x : Finite)
  | infinite (negative : Bool)
  | nan
  deriving DecidableEq

/-- The magnitude zero is representable. -/
theorem Magnitude.representable_zero : Magnitude.Representable 0 :=
  ⟨Magnitude.limit_pos, Nat.zero_mod _⟩

namespace Finite

/-- Zero with the given sign. -/
def zero (negative : Bool) : Finite := ⟨negative, 0, Magnitude.representable_zero⟩

instance : Inhabited Finite := ⟨zero false⟩

/-- The signed number of units. -/
def signed (x : Finite) : Int := if x.negative then -(x.units : Int) else x.units

/-- Whether the value is zero, of either sign. -/
def isZero (x : Finite) : Bool := x.units == 0

/-- Whether the value is a whole number. -/
def isWhole (x : Finite) : Bool := x.units % Magnitude.one == 0

/-- The whole part of the magnitude. -/
def wholePart (x : Finite) : Nat := x.units / Magnitude.one

/-- The largest whole number that is not larger. -/
def floorInt (x : Finite) : Int := x.signed.fdiv Magnitude.one

/-- The value truncated toward zero. -/
def truncInt (x : Finite) : Int := x.signed.tdiv Magnitude.one

/-- The whole number nearest to the value, a half away from zero. -/
def roundInt (x : Finite) : Int :=
  let n := (2 * x.units + Magnitude.one) / (2 * Magnitude.one)
  if x.negative then -(n : Int) else n

/-- The opposite value. -/
def neg (x : Finite) : Finite := { x with negative := !x.negative }

/-- The order of two values as numbers. -/
def order (x y : Finite) : Ordering := compare x.signed y.signed

end Finite

namespace Binary64

/-- The double nearest to `num / den` units, infinite if it is too large. -/
def rounded (negative : Bool) (num den : Nat) : Binary64 :=
  if h : Magnitude.nearest num den < Magnitude.limit then
    .finite ⟨negative, Magnitude.nearest num den, Magnitude.representable_nearest h⟩
  else .infinite negative

/-- The double nearest to a whole number. -/
def ofInt (n : Int) : Binary64 := rounded (n < 0) (n.natAbs * Magnitude.one) 1

/-- Rounding keeps a finite double. -/
theorem rounded_units (x : Finite) : rounded x.negative x.units 1 = .finite x := by
  have h := Magnitude.nearest_of_representable x.representable
  unfold rounded
  rw [dif_pos (by rw [h]; exact x.representable.1)]
  congr 1
  cases x
  simp_all

end Binary64

end Reshape
