/-
# Arguments of built-in functions

Positions in a text and limits of a count are numbers of the language, of which the whole part
matters: the largest integer that is not larger, kept within a 64-bit word.  Both the word and the
rounding of a number that is no double could put another integer in its place, but only one that
lies beyond the length at hand on the same side (`agree_wholeOf`, `exists_limitArg`), and there
one position is as good as another (`Agree`).

A row of arguments is read item by item (`mapM_map_eq_ok`).
-/
import Mathlib.Tactic
import Reshape.Expression.Library
import Reshape.Proofs.Nearness

namespace Reshape

open Magnitude (one)

/-! ## Whole parts -/

theorem Finite.floorInt_eq (d : Finite) : d.floorInt = ⌊d.value⌋ := by
  rw [floorInt, value, Int.fdiv_eq_ediv_of_nonneg _ (Int.natCast_nonneg one)]
  exact (Rat.floor_intCast_div_natCast d.signed one).symm

namespace Number

variable {x : Number}

/-- The number is a double, or lengths are so small that it does not matter which of the doubles
around it is taken. -/
def IsExactWithin (n : ℕ) (x : Number) : Prop := x.IsDouble ∨ n < 2 ^ 53

/-- Rounding does not go past a double. -/
theorem le_double {d : Finite} (h : d.value ≤ x.value) : d.value ≤ x.double.value := by
  have hnear := abs_sub_double_le x d
  rw [abs_of_nonneg (sub_nonneg.2 h)] at hnear
  have hle := (abs_le.1 hnear).2
  linarith

theorem double_le {d : Finite} (h : x.value ≤ d.value) : x.double.value ≤ d.value := by
  have hnear := abs_sub_double_le x d
  rw [abs_of_nonpos (sub_nonpos.2 h)] at hnear
  have hle := (abs_le.1 hnear).1
  linarith

theorem double_nonneg (hx : 0 ≤ x.value) : 0 ≤ x.double.value := by
  have hzero : (Finite.zero false).value = 0 := by
    rw [Finite.value]
    show ((0 : ℤ) : ℚ) / _ = 0
    rw [Int.cast_zero, zero_div]
  rw [← hzero] at hx ⊢
  exact le_double hx

/-- A large number is rounded to a large one on the same side of zero. -/
theorem two_pow_le_double (hx : 2 ^ 53 ≤ x.value) : 2 ^ 53 ≤ x.double.value := by
  obtain ⟨d, hd⟩ := exists_value_eq_two_pow false
  rw [if_neg Bool.false_ne_true] at hd
  rw [← hd] at hx ⊢
  exact le_double hx

theorem double_le_neg_two_pow (hx : x.value ≤ -2 ^ 53) : x.double.value ≤ -2 ^ 53 := by
  obtain ⟨d, hd⟩ := exists_value_eq_two_pow true
  rw [if_pos rfl] at hd
  rw [← hd] at hx ⊢
  exact double_le hx

/-- The whole part of a number is that of its double, or both lie beyond the length. -/
theorem floor_double_eq_or_beyond {n : ℕ} (hx : x.IsExactWithin n) :
    ⌊x.double.value⌋ = ⌊x.value⌋ ∨ (n : ℤ) < ⌊x.double.value⌋ ∧ (n : ℤ) < ⌊x.value⌋ ∨
      ⌊x.double.value⌋ < -n ∧ ⌊x.value⌋ < -n := by
  by_cases hdouble : x.IsDouble
  · exact .inl (by rw [value_double_of_isDouble hdouble])
  · have hn : n < 2 ^ 53 := hx.resolve_left hdouble
    have hlarge : 2 ^ 53 ≤ |x.value| :=
      not_lt.1 fun hlt => hdouble (isDouble_of_abs_lt hlt)
    -- a number that is no double is beyond the length, and so is its double
    rcases le_abs'.1 hlarge with hneg | hpos
    · have hfloor : ∀ q : ℚ, q ≤ -2 ^ 53 → ⌊q⌋ < -n := by
        intro q hq
        have hle : (⌊q⌋ : ℚ) ≤ ((-2 ^ 53 : ℤ) : ℚ) := by
          push_cast
          exact (Int.floor_le q).trans hq
        have := Int.cast_le.1 hle
        omega
      exact .inr (.inr ⟨hfloor _ (double_le_neg_two_pow hneg), hfloor _ hneg⟩)
    · have hfloor : ∀ q : ℚ, 2 ^ 53 ≤ q → (n : ℤ) < ⌊q⌋ := by
        intro q hq
        have hle : (2 ^ 53 : ℤ) ≤ ⌊q⌋ := Int.le_floor.2 (by exact_mod_cast hq)
        omega
      exact .inr (.inl ⟨hfloor _ (two_pow_le_double hpos), hfloor _ hpos⟩)

end Number

/-! ## Positions that agree -/

/-- The integers are the same, or both lie beyond a length of `n` on the same side. -/
def Agree (n : ℕ) (i j : ℤ) : Prop := i = j ∨ ↑n ≤ i ∧ ↑n ≤ j ∨ i ≤ -n ∧ j ≤ -n

/-- The whole part of a number agrees with that of its double. -/
theorem Number.agree_floor_double {x : Number} {n : ℕ} (hx : x.IsExactWithin n) :
    Agree n ⌊x.double.value⌋ ⌊x.value⌋ := by
  have hfloor := floor_double_eq_or_beyond hx
  unfold Agree
  omega

namespace Expression.Library

open Binary64 (clamp clampInt64 clampUInt64)

/-! ## Reading arguments -/

/-- The word is the nearest to the whole part of the double. -/
theorem wholeOf_eq (x : Number) : wholeOf x.toBinary64 = clampInt64 ⌊x.double.value⌋ := by
  rw [Number.toBinary64_eq, wholeOf, Finite.floorInt_eq]

/-- **A whole part agrees with the word that is taken for it**, at lengths that a word can
count. -/
theorem agree_wholeOf {x : Number} {n : ℕ} (hn : n ≤ Word.maxInt64) (hx : x.IsExactWithin n) :
    Agree n (wholeOf x.toBinary64) ⌊x.value⌋ := by
  have hfloor := Number.agree_floor_double hx
  rw [wholeOf_eq, clampInt64, clamp]
  unfold Agree at hfloor ⊢
  unfold Word.minInt64 Word.maxInt64 at *
  split_ifs <;> omega

theorem wholeOf_nonneg {x : Number} (hx : 0 ≤ x.value) : 0 ≤ wholeOf x.toBinary64 := by
  have hfloor : 0 ≤ ⌊x.double.value⌋ := Int.floor_nonneg.2 (Number.double_nonneg hx)
  rw [wholeOf_eq, clampInt64, clamp]
  unfold Word.minInt64 Word.maxInt64
  split_ifs <;> omega

theorem wholeOf_zero : wholeOf Number.zero.toBinary64 = 0 := by decide +kernel

/-- A number that is not negative is a limit, and the limit agrees with its whole part. -/
theorem exists_limitArg (f : Builtin) {x : Number} {n : ℕ} (hn : n ≤ Word.maxUInt64)
    (hx : x.IsExactWithin n) (hpos : 0 ≤ x.value) :
    ∃ k : ℕ, limitArg? f (some (.number x)) = .ok (some k) ∧ Agree n k ⌊x.value⌋ := by
  have hdouble := Number.double_nonneg hpos
  -- the sign of a double is that of its units
  have hsigned : ¬ x.double.signed < 0 := by
    have hone := Finite.one_pos
    rw [Finite.value] at hdouble
    have hcast : (0 : ℚ) ≤ x.double.signed := by
      by_contra hneg
      exact absurd hdouble (not_le.2 (div_neg_of_neg_of_pos (not_le.1 hneg) hone))
    exact not_lt.2 (by exact_mod_cast hcast)
  refine ⟨(clampUInt64 x.double.floorInt).toNat, ?_, ?_⟩
  · show limitArg? f (some (.number x)) = _
    rw [limitArg?, number?, Number.toBinary64_eq]
    exact if_neg hsigned
  · have hfloor := Number.agree_floor_double hx
    have hfloorpos : 0 ≤ ⌊x.double.value⌋ := Int.floor_nonneg.2 hdouble
    rw [Finite.floorInt_eq, clampUInt64, clamp]
    unfold Agree at hfloor ⊢
    unfold Word.maxUInt64 at *
    split_ifs <;> omega

/-- A row is read if each of its items is. -/
theorem mapM_map_eq_ok {α β : Type} {f : α → Json} {g : Json → Except EvalError β} {k : α → β}
    (h : ∀ a, g (f a) = .ok (k a)) (as : List α) : (as.map f).mapM g = .ok (as.map k) := by
  induction as with
  | nil => rfl
  | cons a as ih =>
    rw [List.map_cons, List.mapM_cons, h a, ih]
    rfl

end Expression.Library

end Reshape
