/-
# Merging objects

Members are set one after the other, each in its place if its name is there and at the end if it is
not.  Setting a member before or after other members are merged is the same as long as it keeps its
place (`merge_set_of_mem`), and therefore a member may be set in what is merged or in the outcome
(`merge_set`).  This makes merging associative (`merge_assoc`), so that a row of objects may be
merged in any grouping (`mergeAll_regroup`).

What a row of objects is merged to has each name where it stands first, and under each name the
value of the last object that has it (`names_mergeAll`, `get?_mergeAll`).
-/
import Mathlib.Tactic
import Reshape.Expression.Library
import Reshape.Proofs.Likeness

namespace Reshape

namespace Members

variable {k n : String} {v w : Json} {ms other : Members}

theorem get?_eq_none_iff : ms.get? k = none ↔ k ∉ ms.names := by
  rw [← exists_get?_iff, Option.eq_none_iff_forall_ne_some, not_exists]

theorem nodup_names_nil : (names []).Nodup := List.nodup_nil

/-! ## Setting members -/

theorem mem_names_set : k ∈ (ms.set n v).names ↔ k = n ∨ k ∈ ms.names := by
  rw [names_set]
  split
  · rename_i hn
    exact ⟨.inr, fun h => h.elim (fun hk => hk ▸ hn) id⟩
  · rw [List.mem_append, List.mem_singleton, or_comm]

/-- The member that is set last stays. -/
theorem set_set (k : String) (v w : Json) (ms : Members) :
    (ms.set k w).set k v = ms.set k v := by
  induction ms with
  | nil => simp [set]
  | cons m rest ih =>
    obtain ⟨n, u⟩ := m
    by_cases hn : (n == k) = true
    · simp [set, hn]
    · simp [set, hn, ih]

/-- A member that keeps its place may be set before or after another one. -/
theorem set_comm (hne : k ≠ n) (h : k ∈ ms.names) (v w : Json) :
    (ms.set k v).set n w = (ms.set n w).set k v := by
  induction ms with
  | nil => cases h
  | cons m rest ih =>
    obtain ⟨l, u⟩ := m
    by_cases hk : l = k
    · subst hk
      simp [set, hne]
    · have hrest : k ∈ names rest := (List.mem_cons.1 h).resolve_left (Ne.symm hk)
      by_cases hn : l = n
      · subst hn
        simp [set, hk]
      · simp [set, hk, hn, ih hrest]

/-! ## Merging two -/

theorem merge_cons (ms other : Members) (k : String) (v : Json) :
    ms.merge ((k, v) :: other) = (ms.set k v).merge other := rfl

theorem merge_append (ms other others : Members) :
    ms.merge (other ++ others) = (ms.merge other).merge others := List.foldl_append

theorem nodup_merge (h : ms.names.Nodup) : (ms.merge other).names.Nodup := by
  induction other generalizing ms with
  | nil => exact h
  | cons m rest ih => exact ih (nodup_set h)

/-- Members with new names are put behind those that are there. -/
theorem merge_of_nodup (h : (ms.names ++ other.names).Nodup) : ms.merge other = ms ++ other := by
  induction other generalizing ms with
  | nil => exact (List.append_nil ms).symm
  | cons m rest ih =>
    obtain ⟨k, v⟩ := m
    have hk : k ∉ ms.names := fun hmem =>
      (List.disjoint_of_nodup_append h) hmem List.mem_cons_self
    have hnames : names (ms ++ [(k, v)]) ++ names rest = ms.names ++ names ((k, v) :: rest) := by
      simp [names]
    rw [merge_cons, set_of_not_mem hk, ih (by rwa [hnames]), List.append_assoc]
    rfl

theorem nil_merge (h : ms.names.Nodup) : merge [] ms = ms := merge_of_nodup h

/-- The merged members win over those that were there. -/
theorem get?_merge (h : other.names.Nodup) (k : String) :
    (ms.merge other).get? k = (other.get? k).or (ms.get? k) := by
  induction other generalizing ms with
  | nil => rfl
  | cons m rest ih =>
    obtain ⟨n, w⟩ := m
    obtain ⟨hn, hrest⟩ := List.nodup_cons.1 h
    rw [merge_cons, ih hrest, get?_set, get?]
    by_cases hnk : n = k
    · subst hnk
      rw [get?_eq_none_iff.2 hn, if_pos rfl, if_pos (beq_self_eq_true n)]
      rfl
    · rw [if_neg hnk, if_neg (by simpa using hnk)]

/-- A member that keeps its place may be set before or after others are merged. -/
theorem merge_set_of_mem (h : k ∈ ms.names) (hk : k ∉ other.names) (v : Json) :
    (ms.set k v).merge other = (ms.merge other).set k v := by
  induction other generalizing ms with
  | nil => rfl
  | cons m rest ih =>
    obtain ⟨n, w⟩ := m
    obtain ⟨hne, hrest⟩ := not_or.1 (mt List.mem_cons.2 hk)
    rw [merge_cons, merge_cons, set_comm hne h, ih (mem_names_set.2 (.inr h)) hrest]

/-- **A member may be set in what is merged or in the outcome.** -/
theorem merge_set (h : other.names.Nodup) (ms : Members) (k : String) (v : Json) :
    ms.merge (other.set k v) = (ms.merge other).set k v := by
  induction other generalizing ms with
  | nil => rfl
  | cons m rest ih =>
    obtain ⟨n, w⟩ := m
    obtain ⟨hn, hrest⟩ := List.nodup_cons.1 h
    by_cases hnk : n = k
    · -- the member is set once more, which may wait until the rest is merged
      subst hnk
      have hmem : n ∈ (ms.set n w).names := mem_names_set.2 (.inl rfl)
      rw [set, if_pos (beq_self_eq_true n), merge_cons, merge_cons, ← set_set n v w,
        merge_set_of_mem hmem hn]
    · rw [set, if_neg (by simpa using hnk), merge_cons, merge_cons, ih hrest]

/-- **Merging is associative**: members may be put together before they are merged. -/
theorem merge_assoc (h : ms.names.Nodup) (first others : Members) :
    (first.merge ms).merge others = first.merge (ms.merge others) := by
  induction others generalizing ms with
  | nil => rfl
  | cons m rest ih =>
    obtain ⟨k, v⟩ := m
    rw [merge_cons, merge_cons, ← merge_set h, ih (nodup_set h)]

/-- Of members that are set one after the other each name is put where it stands first. -/
theorem names_nil_merge (other : Members) : (merge [] other).names = other.names.eraseDups := by
  induction other using List.reverseRecOn with
  | nil => rfl
  | append_singleton other m ih =>
    obtain ⟨k, v⟩ := m
    have hnames : names (other ++ [(k, v)]) = names other ++ [k] := List.map_append
    rw [merge_append, hnames, List.eraseDups_append]
    show (set k v (merge [] other)).names = _
    rw [names_set, ih]
    -- the name is new to what was set so far if it is new to the members before it
    by_cases hk : k ∈ names other
    · rw [if_pos (List.mem_eraseDups.2 hk)]
      simp [List.removeAll, hk]
    · rw [if_neg (mt List.mem_eraseDups.1 hk)]
      simp [List.removeAll, hk, List.eraseDups_cons]

/-! ## Merging a row -/

/-- The objects set over each other from the left. -/
def mergeAll (objects : List Members) : Members := objects.foldl merge []

/-- To merge a row is to set all members of the row one after the other. -/
theorem mergeAll_eq_merge_flatten (objects : List Members) :
    mergeAll objects = merge [] objects.flatten := List.foldl_flatten.symm

theorem nodup_mergeAll (objects : List Members) : (mergeAll objects).names.Nodup := by
  rw [mergeAll_eq_merge_flatten]
  exact nodup_merge nodup_names_nil

theorem mergeAll_singleton (h : ms.names.Nodup) : mergeAll [ms] = ms := nil_merge h

/-- The parts of a row may be merged before they are put together. -/
theorem mergeAll_append (xs ys : List Members) :
    mergeAll (xs ++ ys) = (mergeAll xs).merge (mergeAll ys) := by
  rw [mergeAll_eq_merge_flatten, List.flatten_append, merge_append, ← mergeAll_eq_merge_flatten,
    mergeAll_eq_merge_flatten ys, ← merge_assoc nodup_names_nil]
  rfl

/-- **Objects that stand next to each other may be merged first.** -/
theorem mergeAll_regroup (xs ys zs : List Members) :
    mergeAll (xs ++ mergeAll ys :: zs) = mergeAll (xs ++ (ys ++ zs)) := by
  have hsplit : mergeAll (mergeAll ys :: zs) = (mergeAll ys).merge (mergeAll zs) := by
    rw [← mergeAll_singleton (nodup_mergeAll ys), ← mergeAll_append,
      mergeAll_singleton (nodup_mergeAll ys)]
    rfl
  rw [mergeAll_append, mergeAll_append, mergeAll_append, hsplit]

/-- **Under each name stands the value of the last object that has it.** -/
theorem get?_mergeAll {objects : List Members} (h : ∀ o ∈ objects, o.names.Nodup) (k : String) :
    (mergeAll objects).get? k = (objects.filterMap (get? k)).getLast? := by
  induction objects using List.reverseRecOn with
  | nil => rfl
  | append_singleton objects o ih =>
    obtain ⟨hobjects, ho⟩ := List.forall_mem_append.1 h
    have hlast : mergeAll (objects ++ [o]) = (mergeAll objects).merge o := by
      rw [mergeAll_append, mergeAll_singleton (ho o List.mem_cons_self)]
    rw [hlast, get?_merge (ho o List.mem_cons_self), ih hobjects, List.filterMap_append,
      List.getLast?_append]
    cases hk : get? k o <;> simp [hk]

/-- **The names stand in the order in which they appear first.** -/
theorem names_mergeAll (objects : List Members) :
    (mergeAll objects).names = (objects.flatMap names).eraseDups := by
  rw [mergeAll_eq_merge_flatten, names_nil_merge, names, List.map_flatten]
  rfl

end Members

/-! ## The built-ins -/

namespace Expression.Library

open Members (mergeAll)

theorem merged_objects (f : Builtin) (objects : List Members) :
    merged f (.array (objects.map .object)) = .ok (.object (mergeAll objects)) := by
  rw [merged, mergeAll, itemsOf]
  -- on the objects, with the members merged so far as the accumulator
  generalize ([] : Members) = acc
  induction objects generalizing acc with
  | nil => rfl
  | cons o rest ih => exact ih (Members.merge acc o)

theorem apply_merge (now : String) (objects : List Members) :
    apply .merge now [some (.array (objects.map .object))] =
      .ok (some (.object (mergeAll objects))) := by
  show (merged .merge (.array (objects.map .object))).map some = _
  rw [merged_objects]
  rfl

/-- The names of the members of a row of objects are those of what it is merged to. -/
theorem keysOf_objects (objects : List Members) :
    keysOf (.array (objects.map .object)) = keysOf (.object (mergeAll objects)) := by
  rw [keysOf, keysOf, List.foldl_map]
  rfl

/-- **In `$merge` the last value wins in the first place, in any grouping.**  A row of objects is
merged to one: under each name the value of the last object that has it, and the names in the order
in which they appear first, which are those that `$keys` gives for the row.  Three objects are
merged to the same document, order included, whether the first two or the last two are merged before
the third. -/
theorem last_value_in_first_place (now : String) :
    (∀ objects : List Members, ∃ ms : Members,
      apply .merge now [some (.array (objects.map .object))] = .ok (some (.object ms)) ∧
      ((∀ o ∈ objects, o.names.Nodup) →
        ∀ k, ms.get? k = (objects.filterMap (Members.get? k)).getLast?) ∧
      ms.names = (objects.flatMap Members.names).eraseDups ∧
      apply .keys now [some (.array (objects.map .object))] =
        apply .keys now [some (.object ms)]) ∧
    ∀ a b c : Members, ∃ ab bc abc : Members,
      apply .merge now [some (.array [.object a, .object b])] = .ok (some (.object ab)) ∧
      apply .merge now [some (.array [.object b, .object c])] = .ok (some (.object bc)) ∧
      apply .merge now [some (.array [.object ab, .object c])] = .ok (some (.object abc)) ∧
      apply .merge now [some (.array [.object a, .object bc])] = .ok (some (.object abc)) ∧
      apply .merge now [some (.array [.object a, .object b, .object c])] =
        .ok (some (.object abc)) := by
  constructor
  · intro objects
    refine ⟨mergeAll objects, apply_merge now objects, fun h k => Members.get?_mergeAll h k,
      Members.names_mergeAll objects, ?_⟩
    exact congrArg Except.ok (keysOf_objects objects)
  · intro a b c
    -- either grouping is one of the whole row
    have hleft : mergeAll [mergeAll [a, b], c] = mergeAll [a, b, c] :=
      Members.mergeAll_regroup [] [a, b] [c]
    have hright : mergeAll [a, mergeAll [b, c]] = mergeAll [a, b, c] :=
      Members.mergeAll_regroup [a] [b, c] []
    refine ⟨mergeAll [a, b], mergeAll [b, c], mergeAll [a, b, c], apply_merge now [a, b],
      apply_merge now [b, c], ?_, ?_, apply_merge now [a, b, c]⟩
    · rw [← hleft]
      exact apply_merge now [mergeAll [a, b], c]
    · rw [← hright]
      exact apply_merge now [a, mergeAll [b, c]]

/-- Two objects set over members of others: each value names the object that it is from. -/
theorem members_of_three_objects :
    (∀ o ∈ ([[("x", .string "a"), ("y", .string "a")], [("z", .string "b"), ("x", .string "b")],
        [("y", .string "c")]] : List Members), o.names.Nodup) ∧
      ∃ ms : Members,
        apply .merge "" [some (.array [.object [("x", .string "a"), ("y", .string "a")],
          .object [("z", .string "b"), ("x", .string "b")], .object [("y", .string "c")]])] =
            .ok (some (.object ms)) ∧
        ms.names = ["x", "y", "z"] ∧ ms.get? "x" = some (.string "b") ∧
        ms.get? "y" = some (.string "c") ∧ ms.get? "z" = some (.string "b") := by
  have hnodup : ∀ o ∈ ([[("x", .string "a"), ("y", .string "a")],
      [("z", .string "b"), ("x", .string "b")], [("y", .string "c")]] : List Members),
      o.names.Nodup := by
    simp [Members.names]
  obtain ⟨ms, hms, hvalue, hnames, -⟩ := (last_value_in_first_place "").1
    [[("x", .string "a"), ("y", .string "a")], [("z", .string "b"), ("x", .string "b")],
      [("y", .string "c")]]
  refine ⟨hnodup, ms, hms, hnames.trans (by decide), ?_, ?_, ?_⟩
  · exact hvalue hnodup "x"
  · exact hvalue hnodup "y"
  · exact hvalue hnodup "z"

end Expression.Library

end Reshape
