/-
# Characters of names

A name starts with a letter or an underscore and goes on with letters, digits and
underscores, where letters and digits are those of every script.
-/
import Reshape.Text.Table.Letter

namespace Reshape.Text

/-- A letter of any script. -/
def isLetter (c : Char) : Bool := Table.alphabetic.hasChar c

/-- A digit or other number character of any script. -/
def isNumeral (c : Char) : Bool := Table.numeric.hasChar c

/-- A character a name may start with. -/
def isNameStart (c : Char) : Bool := isLetter c || c == '_'

/-- A character a name may go on with. -/
def isNamePart (c : Char) : Bool := isLetter c || isNumeral c || c == '_'

/-- An ASCII digit. -/
def isDigit (c : Char) : Bool := '0' ≤ c && c ≤ '9'

/-- The value of a hexadecimal digit. -/
def hexValue? (c : Char) : Option Nat :=
  if '0' ≤ c && c ≤ '9' then some (c.toNat - '0'.toNat)
  else if 'a' ≤ c && c ≤ 'f' then some (c.toNat - 'a'.toNat + 10)
  else if 'A' ≤ c && c ≤ 'F' then some (c.toNat - 'A'.toNat + 10)
  else none

/-- The value of a row of hexadecimal digits, if all of them are. -/
def hexNumber? (digits : List Char) : Option Nat :=
  digits.foldlM (fun n c => (hexValue? c).map (16 * n + ·)) 0

/-- The value of a row of decimal digits, read after the number `n`. -/
def decimalFrom (n : Nat) (digits : List Char) : Nat :=
  digits.foldl (fun m c => 10 * m + (c.toNat - '0'.toNat)) n

/-- The value of a row of decimal digits. -/
def decimal (digits : List Char) : Nat := decimalFrom 0 digits

/-- The character with the code point `n`, unless `n` is a surrogate or too large. -/
def charOfCode? (n : Nat) : Option Char :=
  if n.isValidChar then some (Char.ofNat n) else none

/-- Every character that may start a name may stand in it. -/
theorem isNamePart_of_isNameStart {c : Char} (h : isNameStart c) : isNamePart c := by
  simp only [isNameStart, isNamePart, Bool.or_eq_true] at *
  rcases h with h | h
  · exact .inl (.inl h)
  · exact .inr h

end Reshape.Text
