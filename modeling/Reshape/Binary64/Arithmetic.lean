/-
# Arithmetic on doubles

Each operation computes the exact result on counts of units and rounds once.  Sums,
differences and remainders are counted in the same unit; a product has the square of
the unit and a quotient none, which the factor `Magnitude.one` makes up for.
-/
import Reshape.Binary64.Basic
import Reshape.Word

namespace Reshape.Binary64

open Magnitude (one)

/-! ## Sums, products, quotients, remainders -/

/-- The double nearest to a signed number of units; `negative` is the sign of a zero. -/
def ofSigned (negative : Bool) (n : Int) : Binary64 :=
  rounded (if n == 0 then negative else n < 0) n.natAbs 1

/-- The opposite double. -/
def neg : Binary64 → Binary64
  | .finite x => .finite x.neg
  | .infinite s => .infinite !s
  | .nan => .nan

/-- The sum; an exact zero is negative only if both summands are. -/
def add : Binary64 → Binary64 → Binary64
  | .finite x, .finite y => ofSigned (x.negative && y.negative) (x.signed + y.signed)
  | .nan, _ | _, .nan => .nan
  | .infinite s, .infinite t => if s == t then .infinite s else .nan
  | .infinite s, .finite _ => .infinite s
  | .finite _, .infinite s => .infinite s

/-- The difference. -/
def sub (x y : Binary64) : Binary64 := add x (neg y)

/-- The product. -/
def mul : Binary64 → Binary64 → Binary64
  | .finite x, .finite y => rounded (x.negative != y.negative) (x.units * y.units) one
  | .nan, _ | _, .nan => .nan
  | .infinite s, .infinite t => .infinite (s != t)
  | .infinite s, .finite y => if y.isZero then .nan else .infinite (s != y.negative)
  | .finite x, .infinite t => if x.isZero then .nan else .infinite (x.negative != t)

/-- The quotient; dividing by zero gives an infinity, or nothing for zero itself. -/
def div : Binary64 → Binary64 → Binary64
  | .finite x, .finite y =>
    if y.isZero then
      if x.isZero then .nan else .infinite (x.negative != y.negative)
    else rounded (x.negative != y.negative) (x.units * one) y.units
  | .nan, _ | _, .nan => .nan
  | .infinite _, .infinite _ => .nan
  | .infinite s, .finite y => .infinite (s != y.negative)
  | .finite x, .infinite t => .finite (.zero (x.negative != t))

/-- The remainder of the truncated quotient; it has the sign of the dividend. -/
def rem : Binary64 → Binary64 → Binary64
  | .finite x, .finite y =>
    if y.isZero then .nan else rounded x.negative (x.units % y.units) 1
  | .nan, _ | _, .nan | .infinite _, _ => .nan
  | .finite x, .infinite _ => .finite x

/-! ## Rounding to whole numbers -/

/-- The magnitude. -/
def abs : Binary64 → Binary64
  | .finite x => .finite { x with negative := false }
  | .infinite _ => .infinite false
  | .nan => .nan

/-- Applies a rounding of counts to multiples of one, keeping the sign of a zero. -/
def whole (f : Finite → Int) : Binary64 → Binary64
  | .finite x => rounded x.negative ((f x).natAbs * one) 1
  | y => y

/-- The largest whole number that is not larger. -/
def floor : Binary64 → Binary64 := whole Finite.floorInt

/-- The smallest whole number that is not smaller. -/
def ceil : Binary64 → Binary64 := whole fun x => -((-x.signed).fdiv one)

/-- The nearest whole number, a half to the even one. -/
def roundEven : Binary64 → Binary64 := whole fun x => Magnitude.nearestEven x.units one

/-! ## Powers, extremes, comparison -/

/-- `x` to the power `n` by squaring, multiplied onto `acc`; `steps` bounds the number
of binary digits of `n`. -/
def powerFrom : (steps : Nat) → (acc x : Binary64) → (n : Nat) → Binary64
  | 0, acc, _, _ => acc
  | steps + 1, acc, x, n =>
    let acc := if n % 2 == 1 then mul acc x else acc
    if n / 2 == 0 then acc else powerFrom steps acc (mul x x) (n / 2)

/-- A whole power; a negative one is the reciprocal of the positive one. -/
def power (x : Binary64) (n : Int) : Binary64 :=
  let p := powerFrom (n.natAbs.log2 + 1) (ofInt 1) x n.natAbs
  if n < 0 then div (ofInt 1) p else p

/-- The order of two doubles, if they have one. -/
def order? : Binary64 → Binary64 → Option Ordering
  | .finite x, .finite y => some (x.order y)
  | .nan, _ | _, .nan => none
  | .infinite s, .infinite t =>
    some (if s == t then .eq else if s then .lt else .gt)
  | .infinite s, .finite _ => some (if s then .lt else .gt)
  | .finite _, .infinite t => some (if t then .gt else .lt)

/-- The larger of two doubles; a missing number gives way to the other. -/
def max (x y : Binary64) : Binary64 :=
  match order? x y with
  | some .lt => y
  | some _ => x
  | none => if x == .nan then y else x

/-- The smaller of two doubles; a missing number gives way to the other. -/
def min (x y : Binary64) : Binary64 :=
  match order? x y with
  | some .gt => y
  | some _ => x
  | none => if x == .nan then y else x

/-- The sum of a row of doubles, from the left. -/
def sum (xs : List Binary64) : Binary64 := xs.foldl add (.finite (.zero false))

/-! ## Whole numbers in a range -/

/-- The nearest whole number of the closed interval from `lo` to `hi`. -/
def clamp (lo hi n : Int) : Int := if n < lo then lo else if hi < n then hi else n

/-- A whole number within the signed 64-bit range. -/
def clampInt64 (n : Int) : Int := clamp Word.minInt64 Word.maxInt64 n

/-- A whole number within the unsigned 64-bit range. -/
def clampUInt64 (n : Int) : Int := clamp 0 Word.maxUInt64 n

/-! ## Laws -/

/-- Taking the opposite twice changes nothing. -/
theorem neg_neg (x : Binary64) : neg (neg x) = x := by
  cases x <;> simp [neg, Finite.neg]

end Reshape.Binary64
