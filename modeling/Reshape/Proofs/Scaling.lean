/-
# Integers rounded to decimal places

To round a number to decimal places it is multiplied by a power of ten, rounded to a whole number
and divided by the same power.  On an integer the step in the middle does nothing, as the product
is whole already, but the other two round to doubles.  While the exact product is a double they
undo each other (`scaledBack_of_representable`).  If not, the quotient is a double that is as near
to the rounded product as the integer is, which bounds how far it may have gone from there
(`distance_scaledBack_le`).
-/
import Mathlib.Tactic
import Reshape.Proofs.NumberTokens
import Reshape.Proofs.Tens

namespace Reshape

open Magnitude (one limit distance nearest nearestEven spacing Representable)

/-! ## Magnitudes scaled and scaled back -/

namespace Magnitude

/-- A number of units is rounded by no more than one part in 2⁵³. -/
theorem distance_nearest_units_le (u : ℕ) : 2 ^ 53 * distance u (nearest u 1) ≤ u := by
  have hhalf : 2 * distance u (nearest u 1) ≤ spacing u := by
    rw [nearest, Nat.div_one, Nat.one_mul]
    exact two_mul_distance_nearestEven_le (spacing_pos u)
  by_cases hsmall : u < 2 ^ 52
  · rw [spacing_eq_one (hsmall.trans (by decide))] at hhalf
    omega
  · have hlog : 52 ≤ u.log2 := (Nat.le_log2 (by omega)).2 (not_lt.1 hsmall)
    calc 2 ^ 53 * distance u (nearest u 1) = 2 ^ 52 * (2 * distance u (nearest u 1)) := by ring
      _ ≤ 2 ^ 52 * spacing u := Nat.mul_le_mul_left _ hhalf
      _ = 2 ^ u.log2 := by rw [spacing_eq, ← Nat.pow_add, Nat.add_sub_of_le hlog]
      _ ≤ u := Nat.log2_self_le (by omega)

/-- The magnitude that `u` is taken to by multiplying and dividing by `g`. -/
def scaledBack (u g : ℕ) : ℕ := nearest (nearest (u * g) 1) g

variable {u g : ℕ}

/-- **A product that is a double is divided back to where it came from.** -/
theorem scaledBack_of_representable (hu : Representable u) (hg : 0 < g)
    (h : Representable (u * g)) : scaledBack u g = u := by
  have hmul := nearest_mul_mul u 1 hg
  rw [Nat.one_mul] at hmul
  rw [scaledBack, nearest_of_representable h, hmul, nearest_of_representable hu]

/-- **Multiplying and dividing again changes a magnitude by no more than one part in 2⁵².** -/
theorem distance_scaledBack_le (hu : Representable u) (hg : 0 < g) :
    2 ^ 52 * distance u (scaledBack u g) ≤ u := by
  have hthere : 2 ^ 53 * distance (u * g) (nearest (u * g) 1) ≤ u * g :=
    distance_nearest_units_le (u * g)
  have hback : distance (nearest (u * g) 1) (scaledBack u g * g) ≤
      distance (nearest (u * g) 1) (u * g) := distance_nearest_le _ hg hu.2
  have hmul : distance (u * g) (scaledBack u g * g) = distance u (scaledBack u g) * g := by
    rw [distance, distance, ← Nat.sub_mul, ← Nat.sub_mul, Nat.add_mul]
  have htriangle : distance (u * g) (scaledBack u g * g) ≤
      2 * distance (u * g) (nearest (u * g) 1) := by
    unfold distance at hback ⊢
    omega
  refine Nat.le_of_mul_le_mul_right ?_ hg
  calc 2 ^ 52 * distance u (scaledBack u g) * g
      = 2 ^ 52 * distance (u * g) (scaledBack u g * g) := by rw [hmul, Nat.mul_assoc]
    _ ≤ 2 ^ 52 * (2 * distance (u * g) (nearest (u * g) 1)) := Nat.mul_le_mul_left _ htriangle
    _ = 2 ^ 53 * distance (u * g) (nearest (u * g) 1) := by ring
    _ ≤ u * g := hthere

end Magnitude

/-! ## Doubles scaled and scaled back -/

namespace Binary64

open Magnitude

/-- A whole double is the whole number nearest to it. -/
theorem roundEven_of_dvd {d : Finite} (h : one ∣ d.units) :
    (finite d).roundEven = .finite d := by
  obtain ⟨q, hq⟩ := exists_eq_mul_left_of_dvd h
  have hunits : nearestEven d.units one * one = d.units := by
    rw [hq, nearestEven_mul Magnitude.one_pos]
  show rounded d.negative ((nearestEven d.units one : ℤ).natAbs * one) 1 = _
  rw [Int.natAbs_natCast, hunits, rounded_units]

/-- The double multiplied by a scale, rounded to a whole number and divided by the scale. -/
def scaledBack (x scale : Binary64) : Binary64 := ((x.mul scale).roundEven).div scale

/-- By an infinite scale nothing comes back. -/
theorem scaledBack_infinite (d : Finite) : scaledBack (.finite d) (.infinite false) = .nan := by
  have hmul : (finite d).mul (.infinite false) =
      if d.isZero then .nan else .infinite (d.negative != false) := rfl
  rw [scaledBack, hmul]
  split <;> rfl

section Finite

variable {d f : Finite} {g : ℕ}

/-- The scale is a positive whole number. -/
structure IsScale (f : Finite) (g : ℕ) : Prop where
  positive : f.negative = false
  units : f.units = g * one
  pos : 0 < g

/-- **A whole double comes back with the magnitude scaled back**, or as an infinity of its
sign. -/
theorem scaledBack_finite (hf : IsScale f g) (hd : one ∣ d.units) :
    limit ≤ nearest (d.units * g) 1 ∧ scaledBack (.finite d) (.finite f) = .infinite d.negative ∨
      scaledBack (.finite d) (.finite f) =
        rounded d.negative (nearest (d.units * g) 1) g := by
  have hsign : (d.negative != f.negative) = d.negative := by
    rw [hf.positive]
    exact Bool.xor_false d.negative
  have hzero : f.isZero = false := by
    rw [Finite.isZero, hf.units, beq_eq_false_iff_ne]
    exact (Nat.mul_pos hf.pos Magnitude.one_pos).ne'
  have hproduct : (finite d).mul (.finite f) = rounded d.negative (d.units * g) 1 := by
    rw [Binary64.mul, hsign, hf.units]
    exact rounded_congr _ Magnitude.one_pos Nat.one_pos (by ring)
  rw [scaledBack, hproduct]
  rcases Nat.lt_or_ge (nearest (d.units * g) 1) limit with hlt | hge
  · right
    have hwhole : one ∣ nearest (d.units * g) 1 := by
      obtain ⟨q, hq⟩ := exists_eq_mul_left_of_dvd hd
      rw [hq, show q * one * g = q * g * one by ring]
      exact one_dvd_nearest (q * g)
    rw [rounded_of_lt _ hlt, roundEven_of_dvd hwhole, Binary64.div, hzero,
      if_neg Bool.false_ne_true, hsign, hf.units]
    exact rounded_congr _ (Nat.mul_pos hf.pos Magnitude.one_pos) hf.pos (by ring)
  · left
    rw [rounded_eq_infinite _ hge]
    refine ⟨hge, ?_⟩
    show Binary64.infinite (d.negative != f.negative) = _
    rw [hsign]

/-- A whole double whose product with the scale is a double comes back as it was. -/
theorem scaledBack_of_representable (hf : IsScale f g) (hd : one ∣ d.units)
    (h : Representable (d.units * g)) : scaledBack (.finite d) (.finite f) = .finite d := by
  have hsame := Magnitude.scaledBack_of_representable d.representable hf.pos h
  rcases scaledBack_finite hf hd with ⟨hge, -⟩ | heq
  · rw [nearest_of_representable h] at hge
    exact absurd h.1 (Nat.not_lt.2 hge)
  · rw [heq, rounded_eq_finite hsame]

/-- A whole double that comes back finite has its sign and is off by no more than one part in
2⁵². -/
theorem scaledBack_cases (hf : IsScale f g) (hd : one ∣ d.units) :
    scaledBack (.finite d) (.finite f) = .infinite d.negative ∨
      ∃ e : Finite, scaledBack (.finite d) (.finite f) = .finite e ∧
        e.negative = d.negative ∧ 2 ^ 52 * distance d.units e.units ≤ d.units := by
  rcases scaledBack_finite hf hd with ⟨-, heq⟩ | heq
  · exact Or.inl heq
  · rw [heq]
    rcases Nat.lt_or_ge (Magnitude.scaledBack d.units g) limit with hlt | hge
    · exact Or.inr ⟨_, rounded_of_lt _ hlt, rfl, distance_scaledBack_le d.representable hf.pos⟩
    · exact Or.inl (rounded_eq_infinite _ hge)

end Finite

end Binary64

/-! ## Rounding to decimal places -/

namespace Expression

open Binary64 (IsInt IsScale scaledBack)

namespace Library

/-- The places that a precision stands for: its whole part within a 64-bit word, and of this the
lower 32 bits as a signed number. -/
def placesOf (y : Number) : ℤ := (Int32.ofInt (wholeOf y.toBinary64)).toInt

/-- A precision below 2³¹ stands for as many places. -/
theorem placesOf_eq {y : Number} {p : ℤ} (hy : y.value = p) (hp : 0 ≤ p) (hlt : p < 2 ^ 31) :
    placesOf y = p := by
  have hdouble : y.double.value = p := by
    rw [← hy]
    refine Number.value_double_of_isDouble (Number.isDouble_of_abs_lt ?_)
    rw [hy, abs_of_nonneg (Int.cast_nonneg hp)]
    exact_mod_cast hlt.trans (by decide)
  have hwhole : wholeOf y.toBinary64 = p := by
    rw [wholeOf_eq, hdouble, Int.floor_intCast, Binary64.clampInt64, Binary64.clamp]
    unfold Word.minInt64 Word.maxInt64
    split_ifs <;> omega
  rw [placesOf, hwhole, Int32.toInt_ofInt_of_le (by omega) (by omega)]

theorem apply_round (now : String) (x y : Number) :
    apply .round now [some (.number x), some (.number y)] =
      (numberResult (scaledBack x.toBinary64 ((Binary64.ofInt 10).power (placesOf y)))).map
        some := rfl

theorem apply_round_whole (now : String) (x : Number) :
    apply .round now [some (.number x)] =
      (numberResult (scaledBack x.toBinary64 ((Binary64.ofInt 10).power 0))).map some := rfl

end Library

/-- What is infinite or missing is no result. -/
theorem numberResult_infinite (s : Bool) :
    (numberResult (.infinite s)).map some = .error .numberOutOfRange := rfl

/-- A double on the same side of zero as an integer is as far from it as their magnitudes are. -/
theorem abs_value_sub_eq {d e : Finite} {n : ℤ} (hd : d.signed = n * one)
    (hsign : e.negative = d.negative) :
    |e.value - n| = (distance d.units e.units : ℚ) / one := by
  have hunits : (n * one - e.signed).natAbs = distance d.units e.units := by
    rw [← hd, Finite.signed, Finite.signed, hsign]
    unfold distance
    split <;> omega
  rw [abs_sub_comm, Finite.abs_int_sub_value, hunits]

/-- A double that is off an integer by no more than one part in 2⁵² gives such a number. -/
theorem exists_numberResult {d e : Finite} {n : ℤ} (hd : d.signed = n * one)
    (hsign : e.negative = d.negative) (hle : 2 ^ 52 * distance d.units e.units ≤ d.units) :
    ∃ z : Number, (numberResult (.finite e)).map some = .ok (some (.number z)) ∧
      |z.value - n| ≤ |(n : ℚ)| / 2 ^ 52 := by
  obtain ⟨z, hz, hvalue⟩ := Number.exists_ofResult? e
  refine ⟨z, ?_, ?_⟩
  · rw [numberResult, hz]
    rfl
  · rw [Finite.units_eq hd] at hle
    have hcast : (2 : ℚ) ^ 52 * distance (n.natAbs * one) e.units ≤ |(n : ℚ)| * one := by
      rw [← Int.cast_abs, Int.abs_eq_natAbs, Int.cast_natCast]
      exact_mod_cast hle
    rw [hvalue, abs_value_sub_eq hd hsign, Finite.units_eq hd,
      div_le_div_iff₀ Finite.one_pos (by positivity), mul_comm]
    exact hcast

/-- A power of ten that is finite is a scale. -/
theorem exists_isScale {k : ℕ} {f : Finite} (h : (Binary64.ofInt 10).power k = .finite f) :
    ∃ g, IsScale f g := by
  rcases Binary64.atLeast_power_ten k with hinfinite | ⟨e, he, hsign, g, hunits, hle⟩
  · rw [h] at hinfinite
    cases hinfinite
  · obtain rfl : f = e := Binary64.finite.inj (h.symm.trans he)
    exact ⟨g, hsign, hunits, (Nat.two_pow_pos _).trans_le hle⟩

/-- Up to 22 places, the scale is the power of ten. -/
theorem exists_isScale_ten {k : ℕ} (hk : k ≤ 22) :
    ∃ f, (Binary64.ofInt 10).power k = .finite f ∧ IsScale f (10 ^ k) := by
  obtain ⟨f, hf, hsigned⟩ := Binary64.isInt_power_ten hk
  obtain ⟨g, hscale⟩ := exists_isScale hf
  have hunits := Finite.units_eq hsigned
  rw [Int.natAbs_pow] at hunits
  exact ⟨f, hf, hscale.positive, hunits, Nat.pow_pos (by decide)⟩

variable {x y : Number} {n : ℤ} {k : ℕ}

/-- An integer is kept while its product with the power of ten is a double. -/
theorem isInteger_scaledBack (hx : x.toBinary64.IsInt n) (hn : |n| < 2 ^ 53) (hk : k ≤ 22)
    (hsmall : n.natAbs * 5 ^ k < 2 ^ 53) :
    IsInteger ((numberResult (scaledBack x.toBinary64 ((Binary64.ofInt 10).power k))).map some)
      n := by
  obtain ⟨f, hf, hscale⟩ := exists_isScale_ten hk
  obtain ⟨d, hd, hsigned⟩ := hx
  have hunits := Finite.units_eq hsigned
  have hproduct : Representable (d.units * 10 ^ k) := by
    rw [hunits, show n.natAbs * one * 10 ^ k = n.natAbs * 10 ^ k * one by ring]
    exact Magnitude.representable_mul_ten_pow hsmall
  have hback := Binary64.scaledBack_of_representable hscale (Dvd.intro_left _ hunits.symm) hproduct
  rw [hf, hd, hback]
  exact numberResult_of_isInt ⟨d, rfl, hsigned⟩ hn

/-- Beyond the finite powers of ten there is no result. -/
theorem scaledBack_of_le (hk : 309 ≤ k) :
    (numberResult (scaledBack x.toBinary64 ((Binary64.ofInt 10).power k))).map some =
      .error .numberOutOfRange := by
  rw [Binary64.power_ten_of_le hk, Number.toBinary64_eq, Binary64.scaledBack_infinite]
  rfl

/-- Whatever the number of places, an integer is off by no more than one part in 2⁵². -/
theorem scaledBack_near (hx : x.toBinary64.IsInt n) :
    (numberResult (scaledBack x.toBinary64 ((Binary64.ofInt 10).power k))).map some =
        .error .numberOutOfRange ∨
      ∃ z : Number,
        (numberResult (scaledBack x.toBinary64 ((Binary64.ofInt 10).power k))).map some =
          .ok (some (.number z)) ∧ |z.value - n| ≤ |(n : ℚ)| / 2 ^ 52 := by
  obtain ⟨d, hd, hsigned⟩ := hx
  rw [hd]
  rcases Binary64.atLeast_power_ten k with hinfinite | ⟨f, hf, -⟩
  · rw [hinfinite, Binary64.scaledBack_infinite]
    exact Or.inl rfl
  · obtain ⟨g, hscale⟩ := exists_isScale hf
    have hwhole : one ∣ d.units := Dvd.intro_left _ (Finite.units_eq hsigned).symm
    rw [hf]
    rcases Binary64.scaledBack_cases hscale hwhole with hback | ⟨e, hback, hsign, hle⟩
    · rw [hback]
      exact Or.inl (numberResult_infinite _)
    · rw [hback]
      exact Or.inr (exists_numberResult hsigned hsign hle)

/-- **Rounding to places that are not negative keeps an integer below 2⁵³, as far as doubles go.**
Without a precision it is kept.  With one, it is kept up to 22 places while the integer times that
power of five is below 2⁵³, since the product with the power of ten is then a double; otherwise it
is off by no more than one part in 2⁵², or there is no result, as there is none from 309 places
on.  A precision below 2³¹ stands for as many places, but of a larger one only the lower 32 bits
count, and these may stand for a negative number of places. -/
theorem rounding_keeps_integers_as_far_as_doubles_go (now : String) (x y : Number) (n : ℤ)
    (hx : x.value = n) (hn : |n| < 2 ^ 53) :
    let r := Library.apply .round now [some (.number x), some (.number y)]
    let k := Library.placesOf y
    IsInteger (Library.apply .round now [some (.number x)]) n ∧
      (∀ p : ℤ, y.value = p → 0 ≤ p → p < 2 ^ 31 → k = p) ∧
      (0 ≤ k → k ≤ 22 → n.natAbs * 5 ^ k.toNat < 2 ^ 53 → IsInteger r n) ∧
      (309 ≤ k → r = .error .numberOutOfRange) ∧
      (0 ≤ k → r = .error .numberOutOfRange ∨
        ∃ z : Number, r = .ok (some (.number z)) ∧ |z.value - n| ≤ |(n : ℚ)| / 2 ^ 52) := by
  intro r k
  have hint : x.toBinary64.IsInt n := Number.isInt_of_abs_lt hx hn
  have hr : ∀ m : ℕ, k = m → r = (numberResult (scaledBack x.toBinary64
      ((Binary64.ofInt 10).power m))).map some := by
    intro m hm
    rw [← hm]
    exact Library.apply_round now x y
  refine ⟨?_, fun p hy hp hlt => Library.placesOf_eq hy hp hlt, ?_, ?_, ?_⟩
  · rw [Library.apply_round_whole]
    refine isInteger_scaledBack hint hn (Nat.zero_le 22) ?_
    rw [Nat.pow_zero, Nat.mul_one]
    exact Number.natAbs_lt hn
  · intro hpos hle hsmall
    rw [hr k.toNat (by omega)]
    exact isInteger_scaledBack hint hn (by omega) hsmall
  · intro hle
    rw [hr k.toNat (by omega)]
    exact scaledBack_of_le (by omega)
  · intro hpos
    rw [hr k.toNat (by omega)]
    exact scaledBack_near hint

/-- Seventeen is kept to twenty places, though 17·10²⁰ is beyond 2⁵³. -/
theorem seventeen_is_kept_to_twenty_places :
    ∃ x y : Number, x.value = (17 : ℤ) ∧ y.value = (20 : ℤ) ∧ |(17 : ℤ)| < 2 ^ 53 ∧
      IsInteger (Library.apply .round "" [some (.number x), some (.number y)]) 17 := by
  refine ⟨.whole 17 (by decide), .whole 20 (by decide), rfl, rfl, by decide, ?_⟩
  obtain ⟨-, hplaces, hkept, -⟩ := rounding_keeps_integers_as_far_as_doubles_go ""
    (.whole 17 (by decide)) (.whole 20 (by decide)) 17 rfl (by decide)
  have hk := hplaces 20 rfl (by decide) (by decide)
  rw [hk] at hkept
  exact hkept (by decide) (by decide) (by decide)

/-- The lower 32 bits of 2³² − 1 stand for −1, so 15 is rounded to tens.  And 2⁵³ − 1 is rounded
twice on its way through 1 place, and comes back one too small. -/
theorem places_may_change_an_integer :
    Library.apply .round "" [some (.number (.whole 15 (by decide))),
        some (.number (.whole 4294967295 (by decide)))] =
          .ok (some (.number (.whole 20 (by decide)))) ∧
      Library.apply .round "" [some (.number (.whole 9007199254740991 (by decide))),
        some (.number (.whole 1 (by decide)))] =
          .ok (some (.number (.whole 9007199254740990 (by decide)))) := by
  have hwrapped : Number.ofResult? (scaledBack (Number.whole 15 (by decide)).toBinary64
      ((Binary64.ofInt 10).power (Library.placesOf (.whole 4294967295 (by decide))))) =
        some (.whole 20 (by decide)) := by decide +kernel
  have htwice : Number.ofResult? (scaledBack (Number.whole 9007199254740991 (by decide)).toBinary64
      ((Binary64.ofInt 10).power (Library.placesOf (.whole 1 (by decide))))) =
        some (.whole 9007199254740990 (by decide)) := by decide +kernel
  constructor
  · rw [Library.apply_round, numberResult, hwrapped]
    rfl
  · rw [Library.apply_round, numberResult, htwice]
    rfl

end Expression

end Reshape
