/-
# Integers in arithmetic

A double is an integer if it is so many ones, where a zero of either sign is zero
(`Binary64.IsInt`).  Sums, products, exact quotients and remainders of such doubles are counted in
units and rounded once; below 2⁵³ in magnitude an integer is a double, so that rounding takes
nothing from it (`isInt_rounded`).  There an integer is given back in the integer form
(`numberResult_of_isInt`), which has neither a fraction nor a negative zero.

A row is summed from the left, so it is its partial sums that must stay below 2⁵³.  The items
must be doubles themselves: an item that is not is rounded before it is added, and the partial
sums do not show it (`large_item_is_rounded_in_a_sum`).
-/
import Mathlib.Tactic
import Reshape.Proofs.Arguments
import Reshape.Proofs.Sublanguage

namespace Reshape

open Magnitude (one)

/-! ## Signs -/

/-- The integer may have this sign; zero may have either. -/
def SignFits (negative : Bool) (n : ℤ) : Prop := if negative then n ≤ 0 else 0 ≤ n

namespace SignFits

variable {s t : Bool} {a b : ℤ}

theorem zero (s : Bool) : SignFits s 0 := by
  cases s <;> exact le_rfl

theorem neg (h : SignFits s a) : SignFits (!s) (-a) := by
  cases s with
  | true => exact Int.neg_nonneg_of_nonpos h
  | false => exact Int.neg_nonpos_of_nonneg h

theorem mul (ha : SignFits s a) (hb : SignFits t b) : SignFits (s != t) (a * b) := by
  cases s with
  | true =>
    cases t with
    | true => exact mul_nonneg_of_nonpos_of_nonpos ha hb
    | false => exact mul_nonpos_of_nonpos_of_nonneg ha hb
  | false =>
    cases t with
    | true => exact mul_nonpos_of_nonneg_of_nonpos ha hb
    | false => exact mul_nonneg ha hb

/-- The sign of a quotient is that of a product. -/
theorem of_mul (hab : SignFits s (b * a)) (hb : SignFits t b) (hne : b ≠ 0) :
    SignFits (s != t) a := by
  -- multiplied by the square of the divisor, the quotient keeps its sign
  have hsquare : 0 < b * b := mul_self_pos.2 hne
  have hmul : SignFits (s != t) (b * b * a) := by
    rw [show b * b * a = b * a * b by ring]
    exact hab.mul hb
  rcases hst : (s != t) with _ | _ <;> rw [hst] at hmul
  · exact nonneg_of_mul_nonneg_right hmul hsquare
  · exact nonpos_of_mul_nonpos_right hmul hsquare

theorem of_mul_pos (h : SignFits s (a * b)) (hb : 0 < b) : SignFits s a := by
  cases s with
  | true => exact nonpos_of_mul_nonpos_left h hb
  | false => exact nonneg_of_mul_nonneg_left h hb

/-- A remainder has the sign of the dividend. -/
theorem tmod (h : SignFits s a) (b : ℤ) : SignFits s (a.tmod b) := by
  cases s with
  | true =>
    have hneg : 0 ≤ (-a).tmod b := Int.tmod_nonneg b (Int.neg_nonneg_of_nonpos h)
    rw [Int.neg_tmod] at hneg
    exact Int.neg_nonneg.1 hneg
  | false => exact Int.tmod_nonneg b h

/-- The sign of an integer, and any sign for zero. -/
theorem ite (s : Bool) (a : ℤ) : SignFits (if a == 0 then s else decide (a < 0)) a := by
  by_cases hzero : a = 0
  · subst hzero
    exact zero s
  · rw [if_neg (by rwa [beq_iff_eq])]
    rcases Int.lt_or_le a 0 with hneg | hpos
    · rw [decide_eq_true hneg]
      exact hneg.le
    · rw [decide_eq_false (Int.not_lt.2 hpos)]
      exact hpos

end SignFits

/-! ## Doubles that are integers -/

namespace Finite

variable {d : Finite} {n : ℤ}

/-- A double of `n` ones has as many units as the magnitude of `n`. -/
theorem units_eq (h : d.signed = n * one) : d.units = n.natAbs * one := by
  have hmul : (n * one : ℤ).natAbs = n.natAbs * one := by
    rw [Int.natAbs_mul, Int.natAbs_natCast]
  rw [← hmul, ← h, signed]
  split <;> omega

theorem signFits (h : d.signed = n * one) : SignFits d.negative n := by
  have hsigned : SignFits d.negative d.signed := by
    rw [signed]
    cases d.negative with
    | true => exact Int.neg_nonpos_of_nonneg (Int.natCast_nonneg d.units)
    | false => exact Int.natCast_nonneg d.units
  exact (h ▸ hsigned).of_mul_pos (Int.natCast_pos.2 Magnitude.one_pos)

/-- A sign and the magnitude of `n` make `n`, if the sign may be that of `n`. -/
theorem signed_eq {negative : Bool} (hrep : Magnitude.Representable (n.natAbs * one))
    (hsign : SignFits negative n) :
    (⟨negative, n.natAbs * one, hrep⟩ : Finite).signed = n * one := by
  have hmul : ((n.natAbs * one : ℕ) : ℤ) = n.natAbs * one := Nat.cast_mul _ _
  rw [signed, hmul]
  cases negative with
  | true => rw [if_pos rfl, ← Int.neg_mul, Int.ofNat_natAbs_of_nonpos hsign, Int.neg_neg]
  | false => rw [if_neg Bool.false_ne_true, Int.natAbs_of_nonneg hsign]

end Finite

namespace Binary64

/-- The double is the integer `n`. -/
def IsInt (x : Binary64) (n : ℤ) : Prop := ∃ d : Finite, x = .finite d ∧ d.signed = n * one

variable {x y : Binary64} {a b q : ℤ}

/-- An integer whose magnitude is that of a double is not changed by rounding. -/
theorem isInt_rounded_of_representable {negative : Bool} {n : ℤ} {num den : ℕ}
    (hrep : Magnitude.Representable (n.natAbs * one)) (hden : 0 < den)
    (hnum : num = n.natAbs * one * den) (hsign : SignFits negative n) :
    IsInt (rounded negative num den) n := by
  have hcongr : num * 1 = n.natAbs * one * den := by rw [Nat.mul_one, hnum]
  have hrounded : rounded negative num den = .finite ⟨negative, n.natAbs * one, hrep⟩ := by
    rw [rounded_congr negative hden Nat.one_pos hcongr]
    exact rounded_units ⟨negative, n.natAbs * one, hrep⟩
  exact ⟨_, hrounded, Finite.signed_eq hrep hsign⟩

/-- **An integer below 2⁵³ is not changed by rounding.** -/
theorem isInt_rounded {negative : Bool} {n : ℤ} {num den : ℕ}
    (hn : n.natAbs < Number.exactLimit) (hden : 0 < den) (hnum : num = n.natAbs * one * den)
    (hsign : SignFits negative n) : IsInt (rounded negative num den) n :=
  isInt_rounded_of_representable (representable_whole hn) hden hnum hsign

theorem isInt_zero (negative : Bool) : IsInt (.finite (.zero negative)) 0 := by
  refine ⟨_, rfl, ?_⟩
  rw [Finite.signed, Finite.zero, Int.zero_mul]
  split <;> rfl

/-- An integer whose magnitude is that of a double is taken as this double. -/
theorem isInt_ofInt {n : ℤ} (h : Magnitude.Representable (n.natAbs * one)) :
    IsInt (ofInt n) n := by
  refine isInt_rounded_of_representable h Nat.one_pos (Nat.mul_one _).symm ?_
  rcases Int.lt_or_le n 0 with hneg | hpos
  · rw [decide_eq_true hneg]
    exact hneg.le
  · rw [decide_eq_false (Int.not_lt.2 hpos)]
    exact hpos

namespace IsInt

theorem neg (hx : IsInt x a) : IsInt x.neg (-a) := by
  obtain ⟨d, rfl, hd⟩ := hx
  refine ⟨d.neg, rfl, ?_⟩
  rw [Int.neg_mul, ← hd, Finite.signed, Finite.signed, Finite.neg]
  cases d.negative <;> simp

theorem add (hx : IsInt x a) (hy : IsInt y b) (hab : (a + b).natAbs < Number.exactLimit) :
    IsInt (x.add y) (a + b) := by
  obtain ⟨d, rfl, hd⟩ := hx
  obtain ⟨e, rfl, he⟩ := hy
  have hsum : d.signed + e.signed = (a + b) * one := by rw [hd, he, Int.add_mul]
  show IsInt (ofSigned (d.negative && e.negative) (d.signed + e.signed)) (a + b)
  rw [hsum, ofSigned]
  refine isInt_rounded hab Nat.one_pos ?_
    ((SignFits.ite _ _).of_mul_pos (Int.natCast_pos.2 Magnitude.one_pos))
  rw [Int.natAbs_mul, Int.natAbs_natCast, Nat.mul_one]

theorem sub (hx : IsInt x a) (hy : IsInt y b) (hab : (a - b).natAbs < Number.exactLimit) :
    IsInt (x.sub y) (a - b) := by
  rw [Int.sub_eq_add_neg] at hab ⊢
  exact hx.add hy.neg hab

theorem mul_of_representable (hx : IsInt x a) (hy : IsInt y b)
    (hab : Magnitude.Representable ((a * b).natAbs * one)) : IsInt (x.mul y) (a * b) := by
  obtain ⟨d, rfl, hd⟩ := hx
  obtain ⟨e, rfl, he⟩ := hy
  have hnum : d.units * e.units = (a * b).natAbs * one * one := by
    rw [Finite.units_eq hd, Finite.units_eq he, Int.natAbs_mul]
    ring
  exact isInt_rounded_of_representable hab Magnitude.one_pos hnum
    ((Finite.signFits hd).mul (Finite.signFits he))

theorem mul (hx : IsInt x a) (hy : IsInt y b) (hab : (a * b).natAbs < Number.exactLimit) :
    IsInt (x.mul y) (a * b) :=
  mul_of_representable hx hy (representable_whole hab)

theorem isZero_eq_false {e : Finite} (he : e.signed = b * one) (hb : b ≠ 0) :
    e.isZero = false := by
  have hne : e.units ≠ 0 := by
    rw [Finite.units_eq he]
    exact Nat.mul_ne_zero (Int.natAbs_ne_zero.2 hb) Magnitude.one_pos.ne'
  rw [Finite.isZero, beq_eq_false_iff_ne]
  exact hne

/-- A quotient without remainder. -/
theorem div (hx : IsInt x (b * q)) (hy : IsInt y b) (hb : b ≠ 0)
    (hq : q.natAbs < Number.exactLimit) : IsInt (x.div y) q := by
  obtain ⟨d, rfl, hd⟩ := hx
  obtain ⟨e, rfl, he⟩ := hy
  have hpos : 0 < b.natAbs * one := Nat.mul_pos (Int.natAbs_pos.2 hb) Magnitude.one_pos
  have hnum : d.units * one = q.natAbs * one * e.units := by
    rw [Finite.units_eq hd, Finite.units_eq he, Int.natAbs_mul]
    ring
  have hdiv : (finite d).div (.finite e) =
      rounded (d.negative != e.negative) (d.units * one) e.units := by
    rw [Binary64.div, isZero_eq_false he hb, if_neg Bool.false_ne_true]
  rw [hdiv]
  refine isInt_rounded hq ?_ hnum ((Finite.signFits hd).of_mul (Finite.signFits he) hb)
  rw [Finite.units_eq he]
  exact hpos

theorem rem (hx : IsInt x a) (hy : IsInt y b) (hb : b ≠ 0)
    (ha : a.natAbs < Number.exactLimit) : IsInt (x.rem y) (a.tmod b) := by
  obtain ⟨d, rfl, hd⟩ := hx
  obtain ⟨e, rfl, he⟩ := hy
  have hrem : (finite d).rem (.finite e) = rounded d.negative (d.units % e.units) 1 := by
    rw [Binary64.rem, isZero_eq_false he hb, if_neg Bool.false_ne_true]
  rw [hrem]
  refine isInt_rounded ?_ Nat.one_pos ?_ ((Finite.signFits hd).tmod b)
  · rw [Int.natAbs_tmod]
    exact (Nat.mod_le _ _).trans_lt ha
  · rw [Finite.units_eq hd, Finite.units_eq he, Nat.mul_mod_mul_right, Int.natAbs_tmod,
      Nat.mul_one]

/-- Adding a row to a number, the sum stays an integer if all partial sums are small. -/
theorem foldl_add {xs : List Binary64} {ns : List ℤ} (hx : IsInt x a)
    (hxs : List.Forall₂ IsInt xs ns)
    (hsmall : ∀ p, p <+: ns → (a + p.sum).natAbs < Number.exactLimit) :
    IsInt (xs.foldl Binary64.add x) (a + ns.sum) := by
  induction hxs generalizing x a with
  | nil =>
    rw [List.sum_nil, Int.add_zero]
    exact hx
  | @cons y n ys ns hy _ ih =>
    -- the first partial sum is what the rest is added to
    have hfirst := hsmall [n] (List.cons_prefix_cons.2 ⟨rfl, List.nil_prefix⟩)
    rw [List.sum_singleton] at hfirst
    rw [List.foldl_cons, List.sum_cons, ← Int.add_assoc]
    refine ih (hx.add hy hfirst) fun p hp => ?_
    have hnext := hsmall (n :: p) (List.cons_prefix_cons.2 ⟨rfl, hp⟩)
    rwa [List.sum_cons, ← Int.add_assoc] at hnext

theorem sum {xs : List Binary64} {ns : List ℤ} (hxs : List.Forall₂ IsInt xs ns)
    (hsmall : ∀ p, p <+: ns → p.sum.natAbs < Number.exactLimit) :
    IsInt (Binary64.sum xs) ns.sum := by
  have hsum := foldl_add (isInt_zero false) hxs fun p hp => by
    rw [Int.zero_add]
    exact hsmall p hp
  rwa [Int.zero_add] at hsum

end IsInt

end Binary64

/-! ## Numbers that are integers -/

namespace Number

variable {x y : Number} {n : ℤ}

/-- A number that is a double is taken as the integer that it is. -/
theorem isInt_toBinary64 (hx : x.IsDouble) (hn : x.value = n) : x.toBinary64.IsInt n := by
  refine ⟨x.double, toBinary64_eq x, ?_⟩
  have hvalue : x.double.value = n := (value_double_of_isDouble hx).trans hn
  rw [Finite.value, div_eq_iff Finite.one_pos.ne'] at hvalue
  exact_mod_cast hvalue

theorem isInt_of_abs_lt (hn : x.value = n) (hlt : |n| < 2 ^ 53) : x.toBinary64.IsInt n := by
  refine isInt_toBinary64 (isDouble_of_abs_lt ?_) hn
  rw [hn]
  exact_mod_cast hlt

theorem natAbs_lt (hlt : |n| < 2 ^ 53) : n.natAbs < exactLimit := by
  rw [Int.abs_eq_natAbs] at hlt
  exact_mod_cast hlt

/-- An integer in the integer form is written in decimal. -/
theorem text_whole (h : Fits64 n) : (Json.number (.whole n h)).text = toString n := by
  show String.ofList (Json.writeInt n) = n.repr
  rw [Json.writeInt, Decimal.digitChars]
  cases n with
  | ofNat n =>
    rw [if_neg (by simp), List.nil_append]
    rfl
  | negSucc n =>
    rw [if_pos (Int.negSucc_lt_zero n), String.ofList_append]
    rfl

end Number

namespace Expression

open Binary64 (IsInt)

/-- The outcome is the integer `n`: a number in the integer form, which is written as `n` in
decimal. -/
def IsInteger (r : Except EvalError Value) (n : ℤ) : Prop :=
  ∃ h : Fits64 n, r = .ok (some (.number (.whole n h))) ∧
    (Json.number (.whole n h)).text = toString n

/-- **An integer below 2⁵³ is given back in the integer form.** -/
theorem numberResult_of_isInt {x : Binary64} {n : ℤ} (hx : x.IsInt n) (hn : |n| < 2 ^ 53) :
    IsInteger ((numberResult x).map some) n := by
  have hlt := Number.natAbs_lt hn
  obtain ⟨d, rfl, hd⟩ := hx
  have hfinite : d = ⟨d.negative, n.natAbs * one, Binary64.representable_whole hlt⟩ := by
    cases d
    simp only [Finite.mk.injEq, true_and]
    exact Finite.units_eq hd
  have hwhole : (if d.negative = true then -(n.natAbs : ℤ) else n.natAbs) = n := by
    have hsign := Finite.signFits hd
    rcases hneg : d.negative with _ | _ <;> rw [hneg] at hsign
    · exact Int.natAbs_of_nonneg hsign
    · rw [if_pos rfl, Int.ofNat_natAbs_of_nonpos hsign, Int.neg_neg]
  have hresult : Number.ofResult? (.finite d) =
      some (.whole (if d.negative = true then -(n.natAbs : ℤ) else n.natAbs)
        (Number.fits64_of_lt hlt d.negative)) := by
    conv => lhs; rw [hfinite]
    exact ofResult?_whole hlt d.negative
  have hfits : Fits64 n := hwhole ▸ Number.fits64_of_lt hlt d.negative
  refine ⟨hfits, ?_, Number.text_whole hfits⟩
  rw [numberResult, hresult]
  simp only [hwhole]
  rfl

/-! ### Division by zero -/

theorem isZero_of_isInt {e : Finite} (he : e.signed = (0 : ℤ) * one) : e.isZero = true := by
  rw [Finite.isZero, Finite.units_eq he, Int.natAbs_zero, Nat.zero_mul]
  rfl

theorem numberResult_div_zero (x : Binary64) {y : Binary64} (hy : y.IsInt 0) :
    numberResult (x.div y) = .error .numberOutOfRange := by
  obtain ⟨e, rfl, he⟩ := hy
  cases x with
  | finite d =>
    rw [Binary64.div, if_pos (isZero_of_isInt he)]
    split <;> rfl
  | infinite s => rfl
  | nan => rfl

theorem numberResult_rem_zero (x : Binary64) {y : Binary64} (hy : y.IsInt 0) :
    numberResult (x.rem y) = .error .numberOutOfRange := by
  obtain ⟨e, rfl, he⟩ := hy
  cases x with
  | finite d =>
    rw [Binary64.rem, if_pos (isZero_of_isInt he)]
    rfl
  | infinite s => rfl
  | nan => rfl

/-! ### Sums -/

theorem numbersArg_numbers (f : Builtin) (xs : List Number) :
    Library.numbersArg f (.array (xs.map .number)) = .ok (xs.map Number.toBinary64) := by
  apply Library.mapM_map_eq_ok
  intro x
  rfl

theorem apply_sum (now : String) (xs : List Number) :
    Library.apply .sum now [some (.array (xs.map .number))] =
      (numberResult (Binary64.sum (xs.map Number.toBinary64))).map some := by
  show ((Library.numbersArg .sum _ >>= fun ys => numberResult (Binary64.sum ys)).map some) = _
  rw [numbersArg_numbers]
  rfl

/-! ## Arithmetic of expressions -/

/-- The outcome of an operator between two numbers. -/
def Operator.onNumbers (op : Operator) (x y : Number) : Except EvalError Value :=
  op.apply (some (.number x)) (some (.number y))

/-- **Integer arithmetic is exact below 2⁵³.**  Whatever form two integers below 2⁵³ in magnitude
have, sum, difference, product, remainder, exact quotient and opposite are the integers that they
should be, as long as these are below 2⁵³ too; to divide by zero is an error.  A row of integers
that are doubles, as all below 2⁵³ are, is summed exactly if all its partial sums are below 2⁵³.
Every such result has the integer form and is written in decimal, without fraction and without
a sign on zero. -/
theorem small_integers_are_computed_exactly :
    (∀ (x y : Number) (a b : ℤ), x.value = a → y.value = b → |a| < 2 ^ 53 → |b| < 2 ^ 53 →
      (|a + b| < 2 ^ 53 → IsInteger (Operator.add.onNumbers x y) (a + b)) ∧
      (|a - b| < 2 ^ 53 → IsInteger (Operator.subtract.onNumbers x y) (a - b)) ∧
      (|a * b| < 2 ^ 53 → IsInteger (Operator.multiply.onNumbers x y) (a * b)) ∧
      (b ≠ 0 → IsInteger (Operator.remainder.onNumbers x y) (a.tmod b)) ∧
      (b ≠ 0 → b ∣ a → IsInteger (Operator.divide.onNumbers x y) (a / b)) ∧
      IsInteger (negated (some (.number x))) (-a)) ∧
    (∀ x y : Number, y.value = 0 →
      Operator.divide.onNumbers x y = .error .numberOutOfRange ∧
      Operator.remainder.onNumbers x y = .error .numberOutOfRange) ∧
    (∀ x : Number, |x.value| < 2 ^ 53 → x.IsDouble) ∧
    ∀ (now : String) (xs : List Number) (ns : List ℤ),
      List.Forall₂ (fun (x : Number) (n : ℤ) => x.IsDouble ∧ x.value = n) xs ns →
      (∀ p, p <+: ns → |p.sum| < 2 ^ 53) →
      IsInteger (Library.apply .sum now [some (.array (xs.map .number))]) ns.sum := by
  refine ⟨?_, ?_, fun x => Number.isDouble_of_abs_lt, ?_⟩
  · intro x y a b hxa hyb ha hb
    have hx := Number.isInt_of_abs_lt hxa ha
    have hy := Number.isInt_of_abs_lt hyb hb
    refine ⟨?_, ?_, ?_, ?_, ?_, ?_⟩
    · intro hsum
      exact numberResult_of_isInt (hx.add hy (Number.natAbs_lt hsum)) hsum
    · intro hdifference
      exact numberResult_of_isInt (hx.sub hy (Number.natAbs_lt hdifference)) hdifference
    · intro hproduct
      exact numberResult_of_isInt (hx.mul hy (Number.natAbs_lt hproduct)) hproduct
    · intro hne
      have hle : |a.tmod b| ≤ |a| := by
        rw [Int.abs_eq_natAbs, Int.abs_eq_natAbs, Int.natAbs_tmod]
        exact_mod_cast Nat.mod_le _ _
      exact numberResult_of_isInt (hx.rem hy hne (Number.natAbs_lt ha)) (hle.trans_lt ha)
    · -- a quotient is not larger than the dividend
      rintro hne ⟨q, rfl⟩
      rw [Int.mul_ediv_cancel_left q hne]
      have hle : |q| ≤ |b * q| := by
        rw [abs_mul]
        exact le_mul_of_one_le_left (abs_nonneg q) (Int.one_le_abs hne)
      have hq := hle.trans_lt ha
      exact numberResult_of_isInt (hx.div hy hne (Number.natAbs_lt hq)) hq
    · exact numberResult_of_isInt hx.neg (by rwa [abs_neg])
  · intro x y hy
    have hzero : y.toBinary64.IsInt 0 :=
      Number.isInt_of_abs_lt (by rw [hy, Int.cast_zero]) (by simp)
    constructor
    · show (numberResult (x.toBinary64.div y.toBinary64)).map some = _
      rw [numberResult_div_zero _ hzero]
      rfl
    · show (numberResult (x.toBinary64.rem y.toBinary64)).map some = _
      rw [numberResult_rem_zero _ hzero]
      rfl
  · intro now xs ns hxs hsmall
    have hints : List.Forall₂ Binary64.IsInt (xs.map Number.toBinary64) ns := by
      rw [List.forall₂_map_left_iff]
      exact hxs.imp fun x n hx => Number.isInt_toBinary64 hx.1 hx.2
    rw [apply_sum]
    exact numberResult_of_isInt
      (Binary64.IsInt.sum hints fun p hp => Number.natAbs_lt (hsmall p hp))
      (hsmall ns List.prefix_rfl)

/-- The remainder of −7 by 2 is −1, and 2⁵³ − 1 and −7 have partial sums that are as large as they
may be. -/
theorem minus_seven_by_two :
    ∃ a b c : Number, a.value = (-7 : ℤ) ∧ b.value = (2 : ℤ) ∧
      c.value = (9007199254740991 : ℤ) ∧
      IsInteger (Operator.remainder.onNumbers a b) (-1) ∧
      Operator.divide.onNumbers a .zero = .error .numberOutOfRange ∧
      (∀ p, p <+: [9007199254740991, -7] → |p.sum| < (2 : ℤ) ^ 53) ∧
      IsInteger (Library.apply .sum "" [some (.array [.number c, .number a])])
        9007199254740984 := by
  have hpartial : ∀ p, p <+: [9007199254740991, -7] → |p.sum| < (2 : ℤ) ^ 53 := by
    intro p hp
    rw [← List.mem_inits] at hp
    revert p
    decide
  obtain ⟨harith, hzero, hdouble, hsum⟩ := small_integers_are_computed_exactly
  refine ⟨.whole (-7) (by decide), .whole 2 (by decide), .whole 9007199254740991 (by decide),
    rfl, rfl, rfl, ?_, ?_, hpartial, ?_⟩
  · exact (harith (.whole (-7) _) (.whole 2 _) (-7) 2 rfl rfl (by decide)
      (by decide)).2.2.2.1 (by decide)
  · exact (hzero _ .zero rfl).1
  · refine hsum "" [_, _] [9007199254740991, -7] (.cons ⟨hdouble _ ?_, rfl⟩
      (.cons ⟨hdouble _ ?_, rfl⟩ .nil)) hpartial
    · show |((9007199254740991 : ℤ) : ℚ)| < 2 ^ 53
      norm_num
    · show |((-7 : ℤ) : ℚ)| < 2 ^ 53
      norm_num

/-- The partial sums of −2 and 2⁵³ + 1 are below 2⁵³, but 2⁵³ + 1 is not a double: it is added as
2⁵³, and the sum is one too small. -/
theorem large_item_is_rounded_in_a_sum :
    (∀ p, p <+: [-2, 9007199254740993] → |p.sum| < (2 : ℤ) ^ 53) ∧
      Library.apply .sum "" [some (.array [.number (.whole (-2) (by decide)),
        .number (.whole 9007199254740993 (by decide))])] =
          .ok (some (.number (.whole 9007199254740990 (by decide)))) ∧
      ([-2, 9007199254740993] : List ℤ).sum ≠ 9007199254740990 := by
  refine ⟨?_, ?_, by decide⟩
  · intro p hp
    rw [← List.mem_inits] at hp
    revert p
    decide
  · have hsum : Number.ofResult? (Binary64.sum
        [Binary64.ofInt (-2), Binary64.ofInt 9007199254740993]) =
        some (.whole 9007199254740990 (by decide)) := by decide +kernel
    have happly := apply_sum ""
      [.whole (-2) (by decide), .whole 9007199254740993 (by decide)]
    simp only [List.map_cons, List.map_nil, Number.toBinary64, numberResult, hsum] at happly
    exact happly

end Expression

end Reshape
