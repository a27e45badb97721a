/-
# Decimal numerals and doubles

Reading: a numeral `m · 10ᵉ` denotes the double nearest to it.

Writing: the shortest numeral that reads back.  The numbers that round to a given
double fill an interval around it.  The search walks the decimal grids from coarse
to fine, and takes the first grid that has a point in the interval; of two points on
it, the nearer one, and of two equally near the even one.
-/
import Reshape.Binary64.Arithmetic

namespace Reshape

/-- The number `digits · 10^exponent`. -/
structure Decimal where
  digits : Nat
  exponent : Int
  deriving DecidableEq, Repr

namespace Decimal

open Magnitude (one spacing)

/-! ## Reading -/

/-- The number of decimal digits of a natural number. -/
def width (n : Nat) : Nat := (Nat.toDigits 10 n).length

/-- The double nearest to `± digits · 10^exponent`.  Numbers of 310 and more digits
before the point are too large, those that start more than 330 places after it are
nearer to zero than to any other double. -/
def toBinary64 (negative : Bool) (d : Decimal) : Binary64 :=
  if d.digits == 0 then .finite (.zero negative)
  else if 310 < d.exponent then .infinite negative
  else if d.exponent + width d.digits < -330 then .finite (.zero negative)
  else if 0 ≤ d.exponent then
    .rounded negative (d.digits * Nat.pow 10 d.exponent.toNat * one) 1
  else .rounded negative (d.digits * one) (Nat.pow 10 (-d.exponent).toNat)

/-! ## Writing -/

/-- The interval of numbers that round to the magnitude `u`, as the distances from `u`
to its ends in quarters of a unit; the ends belong to it if `u` is an even multiple of
its spacing. -/
structure Basin where
  below : Nat
  above : Nat
  closed : Bool

/-- The basin of a magnitude: half the spacing on either side, but a quarter below a
power of two, where the spacing changes. -/
def basin (u : Nat) : Basin :=
  let s := spacing u
  let below := if u == Nat.pow 2 u.log2 && 1 < s then s else 2 * s
  ⟨below, 2 * s, u / s % 2 == 0⟩

/-- Whether `4 · point / scale`, in quarters of a unit, lies in the basin of `u`. -/
def Basin.has (b : Basin) (u point scale : Nat) : Bool :=
  let p := 4 * point
  let lo := (4 * u - b.below) * scale
  let hi := (4 * u + b.above) * scale
  if b.closed then lo ≤ p && p ≤ hi else lo < p && p < hi

/-- The point of the grid of multiples of `10^exponent` that stands for the magnitude
`u`, if one of the two around `u` lies in its basin. -/
def gridPoint? (u : Nat) (exponent : Int) : Option Nat :=
  let grid := if 0 ≤ exponent then Nat.pow 10 exponent.toNat * one else one
  let scale := if 0 ≤ exponent then 1 else Nat.pow 10 (-exponent).toNat
  let n := u * scale / grid
  let r := u * scale % grid
  let b := basin u
  let lower := b.has u (n * grid) scale
  let upper := b.has u ((n + 1) * grid) scale
  match lower, upper with
  | true, true =>
    some (if 2 * r < grid then n else if grid < 2 * r then n + 1 else n + n % 2)
  | true, false => some n
  | false, true => some (n + 1)
  | false, false => none

/-- The first grid at or below `10^exponent` with a point for `u`. -/
def searchFrom (u : Nat) : (steps : Nat) → (exponent : Int) → Decimal
  | 0, e => ⟨u * (if 0 ≤ e then 1 else Nat.pow 10 (-e).toNat) / one, e⟩
  | steps + 1, e =>
    match gridPoint? u e with
    | some n => ⟨n, e⟩
    | none => searchFrom u steps (e - 1)

/-- An exponent `e` with `u < 10ᵉ`, at most two too large. -/
def topExponent (u : Nat) : Int := ((u.log2 : Int) - 1073) * 30103 / 100000 + 1

/-- The shortest numeral that reads back as the finite double of magnitude `u`. -/
def shortest (u : Nat) : Decimal :=
  if u == 0 then ⟨0, 0⟩ else searchFrom u 22 (topExponent u)

/-! ## Layouts -/

/-- The decimal digits of a natural number. -/
def digitChars (n : Nat) : List Char := Nat.toDigits 10 n

/-- The numeral written with all its places, at least one of them after the point if
`fraction` is set. -/
def positional (fraction : Bool) (d : Decimal) : List Char :=
  let ds := digitChars d.digits
  if 0 ≤ d.exponent then
    ds ++ List.replicate d.exponent.toNat '0' ++ (if fraction then ['.', '0'] else [])
  else
    let places := (-d.exponent).toNat
    if places < ds.length then
      ds.take (ds.length - places) ++ '.' :: ds.drop (ds.length - places)
    else '0' :: '.' :: (List.replicate (places - ds.length) '0' ++ ds)

/-- The numeral written as one digit before the point and a power of ten. -/
def scientific (d : Decimal) : List Char :=
  let ds := digitChars d.digits
  let e := d.exponent + ds.length - 1
  let mantissa := match ds with
    | [] => []
    | [x] => [x]
    | x :: rest => x :: '.' :: rest
  mantissa ++ 'e' :: (if e < 0 then '-' else '+') :: digitChars e.natAbs

/-- A way to write finite doubles: positional notation for numbers from `10^least` up
to below `10^most`, and whether whole numbers keep a zero after the point. -/
structure Layout where
  least? : Option Int
  most? : Option Int
  fraction : Bool

/-- Whether the layout writes the numeral with all its places. -/
def Layout.isPositional (l : Layout) (d : Decimal) : Bool :=
  let e := d.exponent + width d.digits - 1
  let large := match l.least? with
    | some least => decide (least ≤ e)
    | none => true
  let small := match l.most? with
    | some most => decide (e < most)
    | none => true
  d.digits == 0 || (large && small)

/-- The text of a finite double in a layout. -/
def Layout.write (l : Layout) (x : Finite) : List Char :=
  let d := shortest x.units
  (if x.negative then ['-'] else [])
    ++ (if l.isPositional d then positional l.fraction d else scientific d)

/-- Documents: all places from 10⁻⁵ to below 10¹⁶, always a fraction digit. -/
def document : Layout := ⟨some (-5), some 16, true⟩

/-- Plain text: always all places, whole numbers without a point. -/
def plain : Layout := ⟨none, none, false⟩

end Decimal

/-- The text of a double with all its places. -/
def Binary64.plainText : Binary64 → String
  | .finite x => String.ofList (Decimal.plain.write x)
  | .infinite s => if s then "-inf" else "inf"
  | .nan => "NaN"

end Reshape
