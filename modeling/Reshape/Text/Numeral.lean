/-
# Whole numbers in texts

A whole number is a row of decimal digits after an optional sign.
-/
import Reshape.Text.Letter
import Reshape.Word

namespace Reshape.Text

/-- The number that a nonempty row of digits denotes. -/
def digits? (s : List Char) : Option Nat :=
  if s.isEmpty || !s.all isDigit then none else some (decimal s)

/-- The number that digits with an optional plus sign denote. -/
def natural? (s : List Char) : Option Nat :=
  match s with
  | '+' :: rest => digits? rest
  | _ => digits? s

/-- The number that digits with an optional sign denote. -/
def integer? (s : List Char) : Option Int :=
  match s with
  | '-' :: rest => (digits? rest).map fun n => -(n : Int)
  | _ => (natural? s).map Int.ofNat

/-- The number that digits with an optional sign denote, if it fits a signed 64-bit
word. -/
def int64? (s : List Char) : Option Int64 := (integer? s).bind Word.int64?

/-- The number that digits with an optional plus sign denote, if it fits an unsigned
64-bit word. -/
def uint64? (s : List Char) : Option UInt64 := (natural? s).bind Word.uint64?

end Reshape.Text
