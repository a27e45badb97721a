/-
# Sorted tables

Values by name, kept as entries in ascending order of their names.  Names are ordered
by code point, which is also the order of their UTF-8 bytes.
-/

namespace Reshape

/-- Values by name; the names of the entries ascend. -/
structure Keyed (α : Type) where
  entries : List (String × α)
  ascending : entries.Pairwise fun a b => a.1 < b.1

namespace Keyed

variable {α : Type}

/-! ## Entry lists -/

/-- The value under the name `k` in an entry list. -/
def find? (k : String) : List (String × α) → Option α
  | [] => none
  | (k', v) :: rest => if k' = k then some v else find? k rest

/-- The entries with `v` under the name `k`: before the first larger name. -/
def put (k : String) (v : α) : List (String × α) → List (String × α)
  | [] => [(k, v)]
  | (k', v') :: rest =>
    if k < k' then (k, v) :: (k', v') :: rest
    else if k = k' then (k, v) :: rest
    else (k', v') :: put k v rest

/-- The names after a `put` are the names before and the new one. -/
theorem mem_put {k : String} {v : α} {es : List (String × α)} {e : String × α}
    (h : e ∈ put k v es) : e = (k, v) ∨ e ∈ es := by
  induction es with
  | nil => simpa [put] using h
  | cons e' rest ih =>
    obtain ⟨k', v'⟩ := e'
    unfold put at h
    split at h
    · simpa using h
    · split at h
      · rcases List.mem_cons.1 h with h | h
        · exact .inl h
        · exact .inr (List.mem_cons_of_mem _ h)
      · rcases List.mem_cons.1 h with h | h
        · exact .inr (h ▸ List.mem_cons_self)
        · rcases ih h with h | h
          · exact .inl h
          · exact .inr (List.mem_cons_of_mem _ h)

/-- Putting a value keeps the names ascending. -/
theorem ascending_put {k : String} {v : α} {es : List (String × α)}
    (h : es.Pairwise fun a b => a.1 < b.1) : (put k v es).Pairwise fun a b => a.1 < b.1 := by
  induction es with
  | nil => simp [put]
  | cons e' rest ih =>
    obtain ⟨k', v'⟩ := e'
    obtain ⟨hhead, htail⟩ := List.pairwise_cons.1 h
    unfold put
    split
    · rename_i hlt
      refine List.pairwise_cons.2 ⟨fun e he => ?_, h⟩
      rcases List.mem_cons.1 he with rfl | he
      · exact hlt
      · exact String.lt_trans hlt (hhead e he)
    · split
      · rename_i _ heq
        subst heq
        exact List.pairwise_cons.2 ⟨hhead, htail⟩
      · rename_i hnlt hne
        refine List.pairwise_cons.2 ⟨fun e he => ?_, ih htail⟩
        rcases mem_put he with rfl | he
        · rcases Decidable.em (k' < k) with h' | h'
          · exact h'
          · exact absurd (String.le_antisymm (String.not_lt.1 h') (String.not_lt.1 hnlt)) hne
        · exact hhead e he

/-- A value just put is found, and the values under other names are unaffected. -/
theorem find?_put (k k' : String) (v : α) (es : List (String × α)) :
    find? k' (put k v es) = if k = k' then some v else find? k' es := by
  induction es with
  | nil => by_cases h : k = k' <;> simp [put, find?, h]
  | cons e rest ih =>
    obtain ⟨n, w⟩ := e
    unfold put
    split
    · by_cases h : k = k' <;> simp [find?, h]
    · split
      · rename_i _ heq
        subst heq
        by_cases h : k = k' <;> simp [find?, h]
      · rename_i _ hne
        by_cases h : n = k'
        · subst h
          simp [find?, hne]
        · simp [find?, h, ih]

/-- A value is found exactly under the names of the entries. -/
theorem isSome_find?_iff {k : String} {es : List (String × α)} :
    (find? k es).isSome = true ↔ k ∈ es.map Prod.fst := by
  induction es with
  | nil => simp [find?]
  | cons e rest ih =>
    obtain ⟨n, w⟩ := e
    by_cases h : n = k
    · simp [find?, h]
    · simp [find?, h, ih, Ne.symm h]

/-! ## Tables -/

/-- The table without entries. -/
def empty : Keyed α := ⟨[], .nil⟩

instance : EmptyCollection (Keyed α) := ⟨empty⟩

instance : Inhabited (Keyed α) := ⟨empty⟩

/-- The value under a name. -/
def get? (t : Keyed α) (k : String) : Option α := find? k t.entries

/-- The table with `v` under the name `k`. -/
def insert (t : Keyed α) (k : String) (v : α) : Keyed α :=
  ⟨put k v t.entries, ascending_put t.ascending⟩

/-- Whether the table has an entry under a name. -/
def contains (t : Keyed α) (k : String) : Bool := (t.get? k).isSome

/-- The names in ascending order. -/
def names (t : Keyed α) : List String := t.entries.map Prod.fst

/-- The number of entries. -/
def size (t : Keyed α) : Nat := t.entries.length

/-- The table of the given entries, where a later value under a name replaces an
earlier one. -/
def ofList (es : List (String × α)) : Keyed α :=
  es.foldl (fun t (k, v) => t.insert k v) empty

/-! ### Laws -/

/-- The empty table has no values. -/
@[simp] theorem get?_empty (k : String) : (empty : Keyed α).get? k = none := rfl

/-- A value just inserted is found, and others are unaffected. -/
@[simp] theorem get?_insert (t : Keyed α) (k k' : String) (v : α) :
    (t.insert k v).get? k' = if k = k' then some v else t.get? k' :=
  find?_put k k' v t.entries

/-- The names are those that the table has entries under. -/
theorem mem_names_iff {t : Keyed α} {k : String} : k ∈ t.names ↔ t.contains k = true :=
  isSome_find?_iff.symm

end Keyed

end Reshape
