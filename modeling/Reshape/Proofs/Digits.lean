/-
# Rows of digits

A natural number is written in decimal without leading zeros, and a row of digits is read
from left to right.  Reading undoes writing (`decimal_digitChars`), zeros behind a row scale
its number (`decimal_append_zeros`), and zeros in front of it do not count.

Readers find the end of a row by taking digits as long as there are any, so what comes next
must not be one (`takeWhile_append`).
-/
import Mathlib.Tactic
import Reshape.Binary64.Decimal
import Reshape.Text.Letter

namespace Reshape.Text

open Decimal (digitChars)

/-! ## Digits -/

theorem isDigit_iff {c : Char} : isDigit c = true ↔ c.isDigit = true := by
  simp [isDigit, Char.isDigit, Char.le_def]

/-- The characters of a number are digits. -/
theorem isDigit_of_mem_digitChars {n : Nat} {c : Char} (h : c ∈ digitChars n) :
    isDigit c = true :=
  isDigit_iff.2 (Nat.isDigit_of_mem_toDigits (by decide) (by decide) h)

theorem digitChars_ne_nil (n : Nat) : digitChars n ≠ [] := Nat.toDigits_ne_nil

theorem digitChars_zero : digitChars 0 = ['0'] := Nat.toDigits_zero 10

/-- A number other than zero is written with a first digit that is not zero. -/
theorem exists_cons_of_pos {n : Nat} (h : 0 < n) :
    ∃ c cs, digitChars n = c :: cs ∧ c ≠ '0' := by
  induction n using Nat.strong_induction_on with
  | _ n ih =>
    by_cases hn : n < 10
    · refine ⟨n.digitChar, [], Nat.toDigits_of_lt_base hn, ?_⟩
      interval_cases n <;> decide
    · obtain ⟨c, cs, hcs, hc⟩ := ih (n / 10) (by omega) (by omega)
      refine ⟨c, cs ++ [(n % 10).digitChar], ?_, hc⟩
      rw [digitChars, Nat.toDigits_of_base_le (by decide) (by omega)]
      show digitChars (n / 10) ++ _ = _
      rw [hcs, List.cons_append]

/-! ## Rows read -/

theorem decimal_eq (ds : List Char) : decimal ds = Nat.ofDigitChars 10 ds 0 :=
  Nat.ofDigitChars_eq_foldl.symm

/-- Reading undoes writing. -/
theorem decimal_digitChars (n : Nat) : decimal (digitChars n) = n := by
  rw [decimal_eq, digitChars, Nat.ofDigitChars_ten_toDigits]

theorem decimal_append (ds es : List Char) :
    decimal (ds ++ es) = 10 ^ es.length * decimal ds + decimal es := by
  simp only [decimal_eq]
  rw [Nat.ofDigitChars_append, Nat.ofDigitChars_eq_ofDigitChars_zero]

/-- Zeros behind a row scale its number. -/
theorem decimal_append_zeros (ds : List Char) (k : Nat) :
    decimal (ds ++ List.replicate k '0') = 10 ^ k * decimal ds := by
  rw [decimal_append, List.length_replicate, decimal_eq (List.replicate k '0'),
    Nat.ofDigitChars_replicate_zero, Nat.mul_zero, Nat.add_zero]

/-- Zeros in front of a row do not count. -/
theorem decimal_zeros_append (ds : List Char) (k : Nat) :
    decimal (List.replicate k '0' ++ ds) = decimal ds := by
  rw [decimal_append, decimal_eq (List.replicate k '0'), Nat.ofDigitChars_replicate_zero,
    Nat.mul_zero, Nat.mul_zero, Nat.zero_add]

/-! ## The end of a row -/

variable {α : Type} {p : α → Bool}

/-- Nothing, or something that fails a test, comes next. -/
def Ends (p : α → Bool) (rest : List α) : Prop := ∀ x ∈ rest.head?, p x = false

theorem takeWhile_append {xs rest : List α} (hxs : ∀ x ∈ xs, p x = true)
    (hrest : Ends p rest) : (xs ++ rest).takeWhile p = xs := by
  rw [List.takeWhile_append_of_pos hxs]
  cases rest with
  | nil => rw [List.takeWhile_nil, List.append_nil]
  | cons y rest => rw [List.takeWhile_cons, hrest y rfl, if_neg (by simp), List.append_nil]

theorem dropWhile_append {xs rest : List α} (hxs : ∀ x ∈ xs, p x = true)
    (hrest : Ends p rest) : (xs ++ rest).dropWhile p = rest := by
  rw [List.dropWhile_append_of_pos hxs]
  cases rest with
  | nil => rfl
  | cons y rest => rw [List.dropWhile_cons, hrest y rfl, if_neg (by simp)]

end Reshape.Text
