/-
# JSON documents

A number is a whole number that fits 64 bits, signed or unsigned, or a finite double;
the two forms are kept apart, because they are written differently.  Objects keep
their members in order of first appearance, and setting a member that is there
overwrites it in its place.
-/
import Reshape.Binary64.Decimal
import Reshape.Word

namespace Reshape

/-! ## Numbers -/

/-- The whole numbers that have the integer form: those of a signed or an unsigned
64-bit word. -/
def Fits64 (n : Int) : Prop := Word.minInt64 ≤ n ∧ n ≤ Word.maxUInt64

instance (n : Int) : Decidable (Fits64 n) := by unfold Fits64; infer_instance

/-- A JSON number. -/
inductive Number
  | whole (n : Int) (fits : Fits64 n)
  | real (x : Finite)
  deriving DecidableEq

namespace Number

/-- The number as a double. -/
def toBinary64 : Number → Binary64
  | whole n _ => .ofInt n
  | real x => .finite x

/-- The number as an integer, if it has the integer form. -/
def whole? : Number → Option Int
  | whole n _ => some n
  | real _ => none

/-- The number with the value of a double, if that is finite. -/
def ofBinary64? : Binary64 → Option Number
  | .finite x => some (.real x)
  | _ => none

/-- Below 2⁵³ every whole number is a double. -/
def exactLimit : Nat := 9007199254740992

/-- The signed whole part of a finite double below 2⁵³ fits 64 bits. -/
theorem fits64_of_lt {w : Nat} (h : w < exactLimit) (negative : Bool) :
    Fits64 (if negative then -(w : Int) else w) := by
  unfold exactLimit at h
  unfold Fits64 Word.minInt64 Word.maxUInt64
  cases negative <;> simp <;> omega

/-- The number with the value of a double, if that is finite: in the integer form for
whole values below 2⁵³, where the zeros are one. -/
def ofResult? : Binary64 → Option Number
  | .finite x =>
    if h : x.wholePart < exactLimit ∧ x.isWhole then
      some (.whole (if x.negative then -(x.wholePart : Int) else x.wholePart)
        (fits64_of_lt h.1 x.negative))
    else some (.real x)
  | _ => none

/-- A natural number in the integer form, or the nearest double if it is too large. -/
def ofNat (n : Nat) : Number :=
  if h : Fits64 n then .whole n h
  else match Binary64.ofInt n with
    | .finite x => .real x
    | _ => .real (.zero false)

/-- The integer zero. -/
def zero : Number := .whole 0 (by decide)

/-! ### Words -/

/-- A signed 32-bit word in the integer form. -/
def ofInt32 (n : Int32) : Number :=
  .whole n.toInt (by
    have h₁ := n.le_toInt
    have h₂ := n.toInt_lt
    unfold Fits64 Word.minInt64 Word.maxUInt64
    omega)

/-- A signed 64-bit word in the integer form. -/
def ofInt64 (n : Int64) : Number :=
  .whole n.toInt (by
    have h₁ := n.le_toInt
    have h₂ := n.toInt_lt
    unfold Fits64 Word.minInt64 Word.maxUInt64
    omega)

/-- An unsigned 32-bit word in the integer form. -/
def ofUInt32 (n : UInt32) : Number :=
  .whole n.toNat (by
    have h := n.toNat_lt
    unfold Fits64 Word.minInt64 Word.maxUInt64
    omega)

/-- An unsigned 64-bit word in the integer form. -/
def ofUInt64 (n : UInt64) : Number :=
  .whole n.toNat (by
    have h := n.toNat_lt
    unfold Fits64 Word.minInt64 Word.maxUInt64
    omega)

end Number

/-! ## Documents -/

/-- A JSON document. -/
inductive Json
  | null
  | bool (b : Bool)
  | number (n : Number)
  | string (s : String)
  | array (items : List Json)
  | object (members : List (String × Json))

instance : Inhabited Json := ⟨.null⟩

/-- The members of an object in order. -/
abbrev Members := List (String × Json)

namespace Members

/-- The value of a member. -/
def get? (k : String) : Members → Option Json
  | [] => none
  | (k', v) :: rest => if k' == k then some v else get? k rest

/-- The members with `k` set to `v`: in its place if it is there, else at the end. -/
def set (k : String) (v : Json) : Members → Members
  | [] => [(k, v)]
  | (k', v') :: rest => if k' == k then (k', v) :: rest else (k', v') :: set k v rest

/-- The members of `ms` with those of `other` set one after the other. -/
def merge (ms other : Members) : Members :=
  other.foldl (fun acc (k, v) => set k v acc) ms

/-- The names of the members in order. -/
def names (ms : Members) : List String := ms.map Prod.fst

/-! ### Laws -/

/-- Looking up a member just set finds it, and other members are unaffected. -/
theorem get?_set (k k' : String) (v : Json) (ms : Members) :
    get? k' (set k v ms) = if k = k' then some v else get? k' ms := by
  induction ms with
  | nil => by_cases h : k = k' <;> simp [set, get?, h]
  | cons m rest ih =>
    obtain ⟨n, w⟩ := m
    by_cases hn : n = k
    · subst hn
      by_cases h : n = k' <;> simp [set, get?, h]
    · by_cases h : n = k'
      · subst h
        simp [set, get?, hn, Ne.symm hn]
      · simp [set, get?, hn, h, ih]

/-- Setting a member adds its name at the end unless it is there. -/
theorem names_set (k : String) (v : Json) (ms : Members) :
    names (set k v ms) = if k ∈ names ms then names ms else names ms ++ [k] := by
  induction ms with
  | nil => simp [set, names]
  | cons m rest ih =>
    obtain ⟨n, w⟩ := m
    by_cases hn : n = k
    · simp [set, names, hn]
    · have hk : ¬k = n := fun h => hn h.symm
      simp only [names] at ih
      by_cases hm : k ∈ rest.map Prod.fst
      · simp [set, names, hn, hk, ih, hm]
      · simp [set, names, hn, hk, ih, hm]

/-- Setting a member keeps the names distinct. -/
theorem nodup_set {k : String} {v : Json} {ms : Members} (h : (names ms).Nodup) :
    (names (set k v ms)).Nodup := by
  rw [names_set]
  split
  · exact h
  · rename_i hk
    rw [List.nodup_append]
    refine ⟨h, by simp, ?_⟩
    intro a ha b hb
    simp only [List.mem_singleton] at hb
    subst hb
    exact fun e => hk (e ▸ ha)

end Members

/-! ## Well-formed documents -/

mutual

/-- No object of the document repeats a member name. -/
def Json.WellFormed : Json → Prop
  | .null | .bool _ | .number _ | .string _ => True
  | .array items => Json.WellFormedItems items
  | .object members => (Members.names members).Nodup ∧ Json.WellFormedMembers members

/-- Every item of a list is well formed. -/
def Json.WellFormedItems : List Json → Prop
  | [] => True
  | v :: rest => v.WellFormed ∧ Json.WellFormedItems rest

/-- Every value of a member list is well formed. -/
def Json.WellFormedMembers : List (String × Json) → Prop
  | [] => True
  | (_, v) :: rest => v.WellFormed ∧ Json.WellFormedMembers rest

end

mutual

/-- The number of arrays and objects on the longest way into the document. -/
def Json.depth : Json → Nat
  | .null | .bool _ | .number _ | .string _ => 0
  | .array items => Json.depthItems items + 1
  | .object members => Json.depthMembers members + 1

/-- The largest depth of the items. -/
def Json.depthItems : List Json → Nat
  | [] => 0
  | v :: rest => max v.depth (Json.depthItems rest)

/-- The largest depth of the member values. -/
def Json.depthMembers : List (String × Json) → Nat
  | [] => 0
  | (_, v) :: rest => max v.depth (Json.depthMembers rest)

end

/-- The word for the kind of a document. -/
def Json.kind : Json → String
  | .null => "null"
  | .bool _ => "boolean"
  | .number _ => "number"
  | .string _ => "string"
  | .array _ => "array"
  | .object _ => "object"

end Reshape
