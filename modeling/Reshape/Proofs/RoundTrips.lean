/-
# Numbers that are read back

An integer is read back from its text.  A double need not be, since its digits and the power of
ten are rounded apart: ten elevenths, written with sixteen digits, is read as a neighbour
(`ten_elevenths_is_not_read_back`).

Where the digits and the power of ten are doubles themselves, one rounding is left, and the double
that is read is the nearest one (`scaled_eq_toBinary64`).  So a double is read back if its shortest
decimal has no more digits than fit, with the zero that a whole number is written with behind the
point (`isReadBack_real`).
-/
import Reshape.Proofs.Rereading

namespace Reshape

open Magnitude (one Representable)

/-! ## One rounding -/

namespace Json.Reader

open Text (decimalFrom)

/-- Digits that fit are all kept. -/
theorem digitsWithin_eq {n : Nat} {ds : List Char} (h : decimalFrom n ds ≤ significandLimit) :
    digitsWithin n ds = (decimalFrom n ds, []) := by
  induction ds generalizing n with
  | nil => rfl
  | cons d ds ih =>
    have hd : ¬ significandLimit < 10 * n + (d.toNat - '0'.toNat) :=
      Nat.not_lt.2 ((le_decimalFrom _ ds).trans h)
    rw [digitsWithin, if_neg hd]
    exact ih h

/-- A numeral whose digits fit is read with all of them. -/
theorem decimal_numeral {w : Written} (h : w.decimal.digits ≤ significandLimit) :
    w.numeral.decimal = w.decimal := by
  obtain ⟨ds, fraction?, exponent?⟩ := w
  generalize hfs : fraction?.getD [] = fs at *
  have happend : Text.decimal (ds ++ fs) = decimalFrom (decimalFrom 0 ds) fs :=
    List.foldl_append
  have hfits : decimalFrom (decimalFrom 0 ds) fs ≤ significandLimit := by
    rw [← happend, ← hfs]
    exact h
  have hwhole : decimalFrom 0 ds ≤ significandLimit := (le_decimalFrom _ fs).trans hfits
  simp only [Numeral.decimal, Written.numeral, Written.decimal, hfs, digitsWithin_eq hwhole,
    digitsWithin_eq hfits, happend, List.length_nil]
  congr 1
  omega

/-- The powers of ten up to 10²² are doubles. -/
theorem representable_ten_pow : ∀ k ≤ 22, Representable (10 ^ k * one) := by decide +kernel

theorem tenTo_eq {k : Nat} (hk : k ≤ 22) :
    tenTo k = .finite ⟨false, 10 ^ k * one, representable_ten_pow k hk⟩ := by
  have hneg : decide (((Nat.pow 10 k : Nat) : Int) < 0) = false :=
    decide_eq_false (Int.not_lt.2 (Int.natCast_nonneg _))
  rw [tenTo, Binary64.ofInt, hneg]
  exact Binary64.rounded_units ⟨false, 10 ^ k * one, representable_ten_pow k hk⟩

/-- **Where the digits and the power of ten are doubles, what is read is the nearest double.** -/
theorem scaled_eq_toBinary64 {n : Nat} {e : Int} (hn : n < Number.exactLimit)
    (he : e.natAbs ≤ 22) : scaled (.ofInt n) e = Decimal.toBinary64 false ⟨n, e⟩ := by
  have hone := Magnitude.one_pos
  have hneg : decide ((n : Int) < 0) = false :=
    decide_eq_false (Int.not_lt.2 (Int.natCast_nonneg n))
  have hdigits : Binary64.ofInt n = .finite ⟨false, n * one, Binary64.representable_whole hn⟩ := by
    rw [Binary64.ofInt, hneg]
    exact Binary64.rounded_units ⟨false, n * one, Binary64.representable_whole hn⟩
  rw [Decimal.toBinary64_eq_rounded, scaled, hdigits]
  rcases Int.lt_or_le e 0 with hlt | hge
  · -- one division
    have htimes : ((-e).toNat - 1) / powerLimit = 0 :=
      Nat.div_eq_of_lt (by rw [powerLimit]; omega)
    have hzero : e.toNat = 0 := by omega
    have hpos : 0 < 10 ^ (-e).toNat * one := Nat.mul_pos (Nat.pow_pos (by decide)) hone
    rw [if_neg (Int.not_le.2 hlt)]
    simp only [htimes, lowered, Nat.zero_mul, Nat.sub_zero]
    rw [tenTo_eq (by omega)]
    simp only [Binary64.div, Finite.isZero, beq_iff_eq, hpos.ne', if_false, hzero]
    refine Binary64.rounded_congr false hpos (Nat.pow_pos (by decide)) ?_
    ring
  · -- one multiplication
    have hlimit : e ≤ powerLimit := by
      rw [powerLimit]
      omega
    have hzero : (-e).toNat = 0 := by omega
    rw [if_pos hge, if_pos hlimit, tenTo_eq (by omega)]
    simp only [Binary64.mul, hzero]
    refine Binary64.rounded_congr false hone (Nat.pow_pos (by decide)) ?_
    ring

/-- A numeral denotes what the decimal denotes that it stands for. -/
theorem Written.StandsFor.toBinary64_eq {w : Written} {d : Decimal} (h : w.StandsFor d)
    (negative : Bool) : w.decimal.toBinary64 negative = d.toBinary64 negative := by
  obtain hsame | ⟨hpos, hzeros⟩ := h.decimal
  · rw [hsame]
  · have hexponent : d.exponent - ((d.exponent.toNat + 1 : Nat) : Int) = -1 := by omega
    rw [hzeros, ← hexponent]
    exact Decimal.toBinary64_scaled negative d.digits (d.exponent.toNat + 1) d.exponent

end Json.Reader

/-! ## Numbers read back -/

open Json Reader

/-- The digits of the decimal, with the zero behind the point that it gets if it is whole, are a
double, and so is the power of ten. -/
structure Decimal.IsShort (d : Decimal) : Prop where
  digits : d.digits < Number.exactLimit
  zeros : 0 ≤ d.exponent → 10 ^ (d.exponent.toNat + 1) * d.digits < Number.exactLimit
  exponent : d.exponent.natAbs ≤ 22

/-- **Integers are read back.** -/
theorem Number.isReadBack_whole (n : Int) (h : Fits64 n) : (Number.whole n h).IsReadBack := by
  obtain ⟨w, hw, hn, hwrite⟩ := exists_written_whole n h
  exact (isReadBack_iff (n := .whole n h) hw hwrite).2 hn

/-- **Doubles with a short decimal are read back.** -/
theorem Number.isReadBack_real {x : Finite} (h : (Decimal.shortest x.units).IsShort) :
    (Number.real x).IsReadBack := by
  obtain ⟨w, hw, hwrite⟩ := exists_written_real x
  refine (isReadBack_iff (n := .real x) hw.proper hwrite).2 (number?_real hw.real ?_)
  have hshort : w.decimal.digits < Number.exactLimit ∧ w.decimal.exponent.natAbs ≤ 22 := by
    obtain hsame | ⟨hpos, hzeros⟩ := hw.decimal
    · rw [hsame]
      exact ⟨h.digits, h.exponent⟩
    · rw [hzeros]
      exact ⟨h.zeros hpos, Nat.le_add_left 1 21⟩
  have hlimit : Number.exactLimit ≤ significandLimit := by decide
  -- the shortest decimal denotes the double without its sign
  have hread := Decimal.toBinary64_shortest { x with negative := false }
  rw [Numeral.toBinary64, decimal_numeral (hshort.1.le.trans hlimit),
    scaled_eq_toBinary64 hshort.1 hshort.2, hw.toBinary64_eq, hread]
  obtain ⟨negative, units, hx⟩ := x
  cases negative <;> rfl

/-- The double nearest to ten elevenths. -/
def tenElevenths : Finite :=
  ⟨false, 8188362958855447 * Nat.pow 2 1021, by decide +kernel⟩

/-- **Ten elevenths is not read back**: it is written with sixteen digits, which are no double,
and so it is read as the double behind it. -/
theorem ten_elevenths_is_not_read_back :
    Binary64.div (.ofInt 10) (.ofInt 11) = .finite tenElevenths
      ∧ writeNumber (.real tenElevenths) = "0.9090909090909091".toList
      ∧ ¬ (Number.real tenElevenths).IsReadBack := by
  have hwrite : writeNumber (.real tenElevenths) = "0.9090909090909091".toList := by
    decide +kernel
  let w : Written := ⟨['0'], some "9090909090909091".toList, none⟩
  have hw : w.Proper := by
    refine ⟨List.all_eq_true.1 rfl, .inl rfl, ?_, fun e he => nomatch he⟩
    intro fs hfs
    obtain rfl : "9090909090909091".toList = fs := Option.some.inj hfs
    exact ⟨by decide, List.all_eq_true.1 rfl⟩
  refine ⟨by decide +kernel, hwrite, ?_⟩
  have hiff : (Number.real tenElevenths).IsReadBack
      ↔ w.numeral.number? false = some (.real tenElevenths) :=
    isReadBack_iff hw hwrite
  rw [hiff]
  decide +kernel

end Reshape
