/-
# Words

The least and the greatest whole numbers that words of 32 and of 64 bits hold.
-/

namespace Reshape.Word

/-- The least signed 32-bit word, −2³¹. -/
def minInt32 : Int := -2147483648

/-- The greatest signed 32-bit word, 2³¹ − 1. -/
def maxInt32 : Int := 2147483647

/-- The least signed 64-bit word, −2⁶³. -/
def minInt64 : Int := -9223372036854775808

/-- The greatest signed 64-bit word, 2⁶³ − 1. -/
def maxInt64 : Int := 9223372036854775807

/-- The greatest unsigned 32-bit word, 2³² − 1. -/
def maxUInt32 : Int := 4294967295

/-- The greatest unsigned 64-bit word, 2⁶⁴ − 1. -/
def maxUInt64 : Int := 18446744073709551615

/-- The signed 64-bit word with a value, if there is one. -/
def int64? (n : Int) : Option Int64 :=
  if minInt64 ≤ n ∧ n ≤ maxInt64 then some (.ofInt n) else none

/-- The unsigned 64-bit word with a value, if there is one. -/
def uint64? (n : Nat) : Option UInt64 := if n ≤ maxUInt64 then some (.ofNat n) else none

/-- A signed 64-bit word has the value that it was asked for. -/
theorem toInt_of_int64? {n : Int} {w : Int64} (h : int64? n = some w) : w.toInt = n := by
  unfold int64? at h
  split at h
  · rename_i hn
    unfold minInt64 maxInt64 at hn
    rw [Option.some.injEq] at h
    subst h
    exact Int64.toInt_ofInt_of_le (by omega) (by omega)
  · exact absurd h (by simp)

/-- An unsigned 32-bit word has the value that it was made for. -/
theorem toNat_ofInt_uint32 {n : Int} (h₀ : 0 ≤ n) (h : n ≤ maxUInt32) :
    ((UInt32.ofInt n).toNat : Int) = n := by
  unfold maxUInt32 at h
  rw [UInt32.ofInt, UInt32.toNat_ofNat']
  omega

end Reshape.Word
