/-
# Numerals as people write them

A numeral has an optional sign, digits with an optional point among or around them,
and an optional exponent.  The words for infinity and for no number are accepted in
any case.
-/
import Reshape.Binary64.Decimal
import Reshape.Text.Letter

namespace Reshape.Binary64

open Text (isDigit)

/-- A letter of `A` to `Z` in lower case. -/
def lowerLetter (c : Char) : Char :=
  if 'A' ≤ c && c ≤ 'Z' then Char.ofNat (c.toNat + 32) else c

/-- The exponent of a numeral: the digits after the letter, with an optional sign. -/
def exponent? (s : List Char) : Option Int :=
  match s with
  | [] => some 0
  | e :: rest =>
    if e == 'e' || e == 'E' then
      let (negative, digits) := match rest with
        | '-' :: more => (true, more)
        | '+' :: more => (false, more)
        | _ => (false, rest)
      if digits.isEmpty || !digits.all isDigit then none
      else
        let n : Int := Text.decimal digits
        some (if negative then -n else n)
    else none

/-- The double denoted by a numeral without its sign. -/
def magnitude? (negative : Bool) (s : List Char) : Option Binary64 :=
  let word := s.map lowerLetter
  if word == "inf".toList || word == "infinity".toList then some (.infinite negative)
  else if word == "nan".toList then some .nan
  else
    let whole := s.takeWhile isDigit
    let rest := s.drop whole.length
    let (places, rest) := match rest with
      | '.' :: more =>
        let ds := more.takeWhile isDigit
        (ds, more.drop ds.length)
      | _ => ([], rest)
    if whole.isEmpty && places.isEmpty then none
    else (exponent? rest).map fun e =>
      Decimal.toBinary64 negative ⟨Text.decimal (whole ++ places), e - places.length⟩

/-- The double denoted by a numeral, if the text is one. -/
def ofText? (s : List Char) : Option Binary64 :=
  match s with
  | '-' :: rest => magnitude? true rest
  | '+' :: rest => magnitude? false rest
  | _ => magnitude? false s

end Reshape.Binary64
