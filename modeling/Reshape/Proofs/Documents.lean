/-
# Documents and what is inside them

Proofs about documents go from the items of an array and the values of an object to the
whole (`Json.induction`).  Depth and well-formedness are known of a document once they are
known of what is inside it; a scalar has nothing inside.
-/
import Mathlib.Tactic
import Reshape.Json.Basic

namespace Reshape

/-- A member with a new name is put at the end. -/
theorem Members.set_of_not_mem {k : String} {v : Json} {ms : Members} (h : k ∉ ms.names) :
    ms.set k v = ms ++ [(k, v)] := by
  induction ms with
  | nil => rfl
  | cons m ms ih =>
    obtain ⟨n, w⟩ := m
    rw [names, List.map_cons, List.mem_cons, not_or] at h
    rw [set, if_neg (by simpa using Ne.symm h.1), ih h.2, List.cons_append]

namespace Json

/-! ## Induction -/

/-- What holds of a document if it holds of all documents inside it holds of all. -/
theorem induction {P : Json → Prop} (null : P .null) (bool : ∀ b, P (.bool b))
    (number : ∀ n, P (.number n)) (string : ∀ s, P (.string s))
    (array : ∀ items, (∀ v ∈ items, P v) → P (.array items))
    (object : ∀ members, (∀ m ∈ members, P m.2) → P (.object members)) (v : Json) : P v :=
  @Json.rec P (fun items => ∀ v ∈ items, P v) (fun members => ∀ m ∈ members, P m.2)
    (fun m => P m.2) null bool number string array object
    (List.forall_mem_nil _) (fun _ _ hv hrest => List.forall_mem_cons.2 ⟨hv, hrest⟩)
    (List.forall_mem_nil _) (fun _ _ hm hrest => List.forall_mem_cons.2 ⟨hm, hrest⟩)
    (fun _ _ hv => hv) v

/-! ## Inside a document -/

/-- The check along the items of an array is one of each of them. -/
theorem wellFormedItems_iff {items : List Json} :
    WellFormedItems items ↔ ∀ v ∈ items, v.WellFormed := by
  induction items with
  | nil => simp [WellFormedItems]
  | cons v rest ih => rw [WellFormedItems, ih, List.forall_mem_cons]

/-- So is the one along the members of an object. -/
theorem wellFormedMembers_iff {members : List (String × Json)} :
    WellFormedMembers members ↔ ∀ m ∈ members, m.2.WellFormed := by
  induction members with
  | nil => simp [WellFormedMembers]
  | cons m rest ih => rw [WellFormedMembers, ih, List.forall_mem_cons]

/-- An array is well formed if its items are. -/
theorem wellFormed_array {items : List Json} :
    (array items).WellFormed ↔ ∀ v ∈ items, v.WellFormed :=
  wellFormedItems_iff

/-- An object needs distinct names besides. -/
theorem wellFormed_object {members : Members} :
    (object members).WellFormed ↔ members.names.Nodup ∧ ∀ m ∈ members, m.2.WellFormed := by
  rw [WellFormed, wellFormedMembers_iff]

/-- The items of an array are as deep as the deepest of them. -/
theorem depthItems_le_iff {items : List Json} {n : Nat} :
    depthItems items ≤ n ↔ ∀ v ∈ items, v.depth ≤ n := by
  induction items with
  | nil => simp [depthItems]
  | cons v rest ih => rw [depthItems, Nat.max_le, ih, List.forall_mem_cons]

/-- So are the members of an object. -/
theorem depthMembers_le_iff {members : List (String × Json)} {n : Nat} :
    depthMembers members ≤ n ↔ ∀ m ∈ members, m.2.depth ≤ n := by
  induction members with
  | nil => simp [depthMembers]
  | cons m rest ih => rw [depthMembers, Nat.max_le, ih, List.forall_mem_cons]

/-! ## Numbers inside -/

/-- All numbers of the document have the property. -/
inductive AllNumbers (P : Number → Prop) : Json → Prop
  | null : AllNumbers P .null
  | bool (b : Bool) : AllNumbers P (.bool b)
  | number {x : Number} (h : P x) : AllNumbers P (.number x)
  | string (s : String) : AllNumbers P (.string s)
  | array {items : List Json} (h : ∀ v ∈ items, AllNumbers P v) : AllNumbers P (.array items)
  | object {ms : Members} (h : ∀ m ∈ ms, AllNumbers P m.2) : AllNumbers P (.object ms)

/-! ## Members -/

namespace WellFormed

variable {k : String} {v : Json} {ms other : Members}

/-- An object without members is well formed. -/
theorem empty_object : (object []).WellFormed :=
  wellFormed_object.2 ⟨List.nodup_nil, List.forall_mem_nil _⟩

/-- What is found under a name is well formed. -/
theorem of_get? (h : (object ms).WellFormed) (hv : ms.get? k = some v) : v.WellFormed := by
  have hmembers := (wellFormed_object.1 h).2
  clear h
  induction ms with
  | nil => cases hv
  | cons m rest ih =>
    obtain ⟨hm, hrest⟩ := List.forall_mem_cons.1 hmembers
    rw [Members.get?] at hv
    split at hv
    · cases hv
      exact hm
    · exact ih hv hrest

/-- Setting a member keeps an object well formed. -/
theorem set (h : (object ms).WellFormed) (hv : v.WellFormed) :
    (object (ms.set k v)).WellFormed := by
  obtain ⟨hnodup, hmembers⟩ := wellFormed_object.1 h
  refine wellFormed_object.2 ⟨Members.nodup_set hnodup, ?_⟩
  clear h hnodup
  induction ms with
  | nil => exact List.forall_mem_singleton.2 hv
  | cons m rest ih =>
    obtain ⟨hm, hrest⟩ := List.forall_mem_cons.1 hmembers
    rw [Members.set]
    split
    · exact List.forall_mem_cons.2 ⟨hv, hrest⟩
    · exact List.forall_mem_cons.2 ⟨hm, ih hrest⟩

/-- Merging sets one member after the other, so it keeps an object well formed. -/
theorem merge (h : (object ms).WellFormed) (hother : (object other).WellFormed) :
    (object (ms.merge other)).WellFormed := by
  have hmembers := (wellFormed_object.1 hother).2
  clear hother
  rw [Members.merge]
  induction other generalizing ms with
  | nil => exact h
  | cons m rest ih =>
    obtain ⟨hm, hrest⟩ := List.forall_mem_cons.1 hmembers
    exact ih (h.set hm) hrest

end WellFormed

/-! ## Scalars -/

/-- The document has nothing inside it. -/
def IsScalar : Json → Prop
  | .null | .bool _ | .number _ | .string _ => True
  | .array _ | .object _ => False

@[simp] theorem isScalar_null : (null : Json).IsScalar := trivial

@[simp] theorem isScalar_bool (b : Bool) : (bool b).IsScalar := trivial

@[simp] theorem isScalar_number (n : Number) : (number n).IsScalar := trivial

@[simp] theorem isScalar_string (s : String) : (string s).IsScalar := trivial

/-- A scalar has no names that could clash. -/
theorem IsScalar.wellFormed {v : Json} (h : v.IsScalar) : v.WellFormed := by
  cases v <;> trivial

/-- It is not nested at all. -/
theorem IsScalar.depth_eq {v : Json} (h : v.IsScalar) : v.depth = 0 := by
  cases v <;> first | rfl | exact absurd h id

end Json

end Reshape
