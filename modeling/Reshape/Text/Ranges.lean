/-
# Sets of code points as interval lists

A character class is a list of closed intervals of code points in increasing order.
Membership walks the list and stops at the first interval that starts beyond the
character, so that looking up a small code point in a long list is cheap.
-/

namespace Reshape.Text

/-- Closed intervals of code points, disjoint and increasing. -/
abbrev Ranges := List (Nat × Nat)

namespace Ranges

/-- Whether the code point `n` lies in one of the intervals. -/
def has : Ranges → Nat → Bool
  | [], _ => false
  | (lo, hi) :: rest, n => if n < lo then false else n ≤ hi || has rest n

/-- Whether the character lies in one of the intervals. -/
def hasChar (r : Ranges) (c : Char) : Bool := r.has c.toNat

/-- Every interval is nonempty and starts beyond the one before it. -/
def Increasing : Ranges → Prop
  | [] => True
  | [(lo, hi)] => lo ≤ hi
  | (lo, hi) :: (lo', hi') :: rest => lo ≤ hi ∧ hi < lo' ∧ Increasing ((lo', hi') :: rest)

end Ranges

end Reshape.Text
