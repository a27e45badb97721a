/-
# What predicates select

A predicate is evaluated on every item in turn, and the items that it selects are known from its
values (`Eval.selected_eq`).  Where these are numbers with one and the same value, it is the item
at the place that the whole part of the value is, counted from the end if it is negative
(`picked_of_numbers`); where none of them is a number, it is the items on which they are true
(`picked_of_no_numbers`).

The whole part is kept within a word before it is counted from the end, and so is the sum.  A word
counts the items of every array in memory, and then neither puts another place in range
(`selects_number`).
-/
import Mathlib.Tactic
import Reshape.Expression.Evaluation
import Reshape.Proofs.Arguments
import Reshape.Proofs.Calls
import Reshape.Proofs.Sequencing

namespace Reshape.Expression

open Binary64 (clamp clampInt64)
open Library (wholeOf)

/-! ## Places of items -/

/-- The place in a row of `n` items that an integer stands for: counted from the end if it is
negative. -/
def itemPlace (n : ℕ) (i : ℤ) : ℤ := if i < 0 then n + i else i

/-- The item that an integer stands for: counted from the end if it is negative, and none beyond
either end. -/
def itemAt (items : List Json) (i : ℤ) : Value :=
  if 0 ≤ i then items[i.toNat]?
  else if -items.length ≤ i then items[(items.length + i).toNat]?
  else none

variable {items : List Json} {n index : ℕ}

/-- Counted from the end, an item is counted from the start of the reversed row. -/
theorem itemAt_reverse {i : ℤ} (hlow : -items.length ≤ i) (hi : i < 0) :
    itemAt items.reverse (-i - 1) = itemAt items i := by
  have hplace : (items.length + i).toNat = items.length - 1 - (-i - 1).toNat := by omega
  rw [itemAt, if_pos (by omega), itemAt, if_neg (by omega), if_pos hlow, hplace]
  exact List.getElem?_reverse (by omega)

/-- Within the row there is an item. -/
theorem exists_itemAt {i : ℤ} (hlow : -items.length ≤ i) (hi : i < 0) :
    ∃ item ∈ items, itemAt items i = some item := by
  have hlt : (items.length + i).toNat < items.length := by omega
  refine ⟨items[(items.length + i).toNat], List.getElem_mem hlt, ?_⟩
  rw [itemAt, if_neg (by omega), if_pos hlow, List.getElem?_eq_getElem hlt]

/-- A number selects the place that its whole part stands for. -/
theorem selects_number {x : Number} (hn : n ≤ Word.maxInt64) (hx : x.IsExactWithin n)
    (hindex : index < n) :
    Eval.selects n index (some (.number x)) = true ↔ itemPlace n ⌊x.value⌋ = index := by
  have hfloor := Number.floor_double_eq_or_beyond hx
  have hselects : Eval.selects n index (some (.number x)) = true ↔
      (if wholeOf x.toBinary64 < 0 then clampInt64 (wholeOf x.toBinary64 + n)
        else wholeOf x.toBinary64) = index := by
    rw [Eval.selects, beq_iff_eq]
  rw [hselects, Library.wholeOf_eq, itemPlace]
  unfold clampInt64 clamp
  unfold Word.minInt64 Word.maxInt64 at *
  split_ifs <;> omega

/-! ## The items that values select -/

/-- The items from position `index` on, of `n` in all, that the values of a predicate select. -/
def picked (n : ℕ) : (index : ℕ) → List Json → List Value → List Json
  | index, item :: rest, v :: vs =>
    if Eval.selects n index v then item :: picked n (index + 1) rest vs
    else picked n (index + 1) rest vs
  | _, _, _ => []

/-- The items whose values are true. -/
def keptBy (items : List Json) (vs : List Value) : List Json :=
  ((items.zip vs).filter fun p => truthy p.2).map Prod.fst

/-- Every value is a number with the value `k`, where a row of `n` items is so short, or the number
such a double, that it does not matter how it is rounded. -/
def AllNumbersAt (n : ℕ) (k : ℚ) (vs : List Value) : Prop :=
  ∀ v ∈ vs, ∃ x : Number, v = some (.number x) ∧ x.value = k ∧ x.IsExactWithin n

/-- Values that all select the place `place` pick the item there. -/
theorem picked_of_place {place : ℤ} {vs : List Value} (hlength : vs.length = items.length)
    (hindex : index + items.length = n)
    (h : ∀ v ∈ vs, ∀ i : ℕ, i < n → (Eval.selects n i v = true ↔ place = i)) :
    picked n index items vs =
      if index ≤ place then items[(place - index).toNat]?.toList else [] := by
  induction items generalizing index vs with
  | nil => simp [picked]
  | cons item rest ih =>
    obtain ⟨v, vs, rfl⟩ := List.exists_cons_of_length_eq_add_one hlength
    rw [List.length_cons] at hindex hlength
    obtain ⟨hv, hvs⟩ := List.forall_mem_cons.1 h
    have hhead := hv index (by omega)
    have hrest := @ih (index + 1) vs (by simpa using hlength) (by omega) hvs
    rw [picked, hrest]
    rcases lt_trichotomy place index with hlt | heq | hgt
    · rw [if_neg (by simpa [hhead] using hlt.ne), if_neg (by omega), if_neg (by omega)]
    · rw [if_pos (hhead.2 heq), if_neg (by omega), if_pos (by omega), heq]
      simp
    · rw [if_neg (by simpa [hhead] using hgt.ne'), if_pos (by omega), if_pos (by omega)]
      have hplace : (place - index).toNat = (place - (index + 1 : ℕ)).toNat + 1 := by omega
      rw [hplace, List.getElem?_cons_succ]

theorem sequence_toList (v : Value) : sequence v.toList = v := by
  cases v <;> rfl

/-- **Numbers with one value pick the item that its whole part stands for.** -/
theorem picked_of_numbers {vs : List Value} (hlength : vs.length = items.length)
    (hn : items.length ≤ Word.maxInt64) {k : ℚ} (h : AllNumbersAt items.length k vs) :
    sequence (picked items.length 0 items vs) = itemAt items ⌊k⌋ := by
  have hselects : ∀ v ∈ vs, ∀ i : ℕ, i < items.length →
      (Eval.selects items.length i v = true ↔ itemPlace items.length ⌊k⌋ = i) := by
    intro v hv i hi
    obtain ⟨x, rfl, rfl, hx⟩ := h v hv
    exact selects_number hn hx hi
  rw [picked_of_place hlength (Nat.zero_add _) hselects, itemAt, itemPlace, Nat.cast_zero]
  rcases lt_or_ge ⌊k⌋ 0 with hneg | hpos
  · rw [if_pos hneg, if_neg (not_le.2 hneg), Int.sub_zero]
    by_cases hlow : -(items.length : ℤ) ≤ ⌊k⌋
    · rw [if_pos (by omega), if_pos hlow, sequence_toList]
    · rw [if_neg (by omega), if_neg hlow]
      rfl
  · rw [if_neg (not_lt.2 hpos), if_pos hpos, if_pos hpos, Int.sub_zero, sequence_toList]

/-- **Values that are no numbers pick the items on which they are true.** -/
theorem picked_of_no_numbers {vs : List Value} (hlength : vs.length = items.length)
    (h : ∀ v ∈ vs, ∀ x : Number, v ≠ some (.number x)) :
    picked n index items vs = keptBy items vs := by
  induction items generalizing index vs with
  | nil => rfl
  | cons item rest ih =>
    obtain ⟨v, vs, rfl⟩ := List.exists_cons_of_length_eq_add_one hlength
    obtain ⟨hv, hvs⟩ := List.forall_mem_cons.1 h
    have hselects : Eval.selects n index v = truthy v := by
      unfold Eval.selects
      split
      · rename_i x
        exact absurd rfl (hv x)
      · rfl
    rw [picked, hselects, ih (by simpa using hlength) hvs, keptBy, keptBy, List.zip_cons_cons,
      List.filter_cons]
    split <;> simp

/-! ## Evaluation -/

variable {setting : Setting} {depth : ℕ} {base predicate : Tree} {context : Value} {scope : Scope}
  {s t u : Frames} {vs : List Value}

/-- What a predicate selects is known from its values on the items. -/
theorem Eval.selected_eq (f : Json → Eval Value) (n index : ℕ) (items : List Json) :
    selected f n index items = picked n index items <$> items.mapM f := by
  induction items generalizing index with
  | nil => rfl
  | cons item rest ih =>
    rw [List.mapM_cons, selected, ih (index + 1)]
    simp only [map_eq_pure_bind, bind_assoc, pure_bind, picked]

/-- There are as many values as items. -/
theorem Eval.length_of_run_mapM {f : Json → Eval Value} (h : (items.mapM f).run s = .ok (vs, t)) :
    vs.length = items.length := by
  induction items generalizing s vs with
  | nil =>
    cases h
    rfl
  | cons item rest ih =>
    rw [List.mapM_cons] at h
    obtain ⟨v, r, -, h⟩ := exists_of_run_bind h
    obtain ⟨ws, r', hws, h⟩ := exists_of_run_bind h
    cases h
    rw [List.length_cons, List.length_cons, ih hws]

/-- The outcome of a predicate on an array, where it has values on all items. -/
theorem run_filter
    (hbase : (eval setting depth base context scope).run s = .ok (some (.array items), t))
    (hpredicate : (items.mapM fun item => eval setting depth predicate (some item) scope).run t =
      .ok (vs, u)) :
    (eval setting (depth + 1) (.filter base predicate) context scope).run s =
      .ok (sequence (picked items.length 0 items vs), u) := by
  have hselected : (Eval.selected (fun item => eval setting depth predicate (some item) scope)
      items.length 0 items).run t = .ok (picked items.length 0 items vs, u) := by
    rw [Eval.selected_eq, StateT.run_map, hpredicate]
    rfl
  have hsequence : (sequence <$> Eval.selected
      (fun item => eval setting depth predicate (some item) scope) items.length 0 items).run t =
        .ok (sequence (picked items.length 0 items vs), u) := by
    rw [StateT.run_map, hselected]
    rfl
  rw [eval, evalNode, StateT.run_bind, hbase]
  exact hsequence

/-- The reversed array, one level above. -/
theorem run_reverse (place : ℕ)
    (hbase : (eval setting depth base context scope).run s = .ok (some (.array items), t)) :
    (eval setting (depth + 1) (.call (.builtin .reverse) [base] place) context scope).run s =
      .ok (some (.array items.reverse), t) := by
  rw [run_call_builtin rfl place (run_arguments_cons [] hbase)]
  rfl

/-- **A predicate that is one number selects the item at one place, and a predicate that is no
number selects the items on which it is true.**  The place is that of the whole part of the number,
counted from the end if it is negative, and there is no item beyond the ends; so from the end is
from the start of the reversed array.  A word counts the items of every array in memory, and the
number may have any magnitude; if it is no double, the array has fewer than 2⁵³ items. -/
theorem predicates_select (setting : Setting) (depth : ℕ) (base predicate : Tree) (context : Value)
    (scope : Scope) (s t u : Frames) (items : List Json) (vs : List Value)
    (hn : items.length ≤ Word.maxInt64)
    (hbase : (eval setting depth base context scope).run s = .ok (some (.array items), t))
    (hpredicate : (items.mapM fun item => eval setting depth predicate (some item) scope).run t =
      .ok (vs, u)) :
    (∀ k : ℚ, AllNumbersAt items.length k vs →
      (eval setting (depth + 1) (.filter base predicate) context scope).run s =
        .ok (itemAt items ⌊k⌋, u)) ∧
    (∀ i : ℤ, -items.length ≤ i → i < 0 → AllNumbersAt items.length i vs →
      ∀ (place : ℕ) (predicate' : Tree) (vs' : List Value) (u' : Frames),
        (items.reverse.mapM fun item =>
          eval setting (depth + 1) predicate' (some item) scope).run t = .ok (vs', u') →
        AllNumbersAt items.length (-i - 1) vs' →
        ∃ item ∈ items,
          (eval setting (depth + 1) (.filter base predicate) context scope).run s =
            .ok (some item, u) ∧
          (eval setting (depth + 2) (.filter (.call (.builtin .reverse) [base] place) predicate')
            context scope).run s = .ok (some item, u')) ∧
    ((∀ v ∈ vs, ∀ x : Number, v ≠ some (.number x)) →
      (eval setting (depth + 1) (.filter base predicate) context scope).run s =
        .ok (sequence (keptBy items vs), u)) := by
  have hlength := Eval.length_of_run_mapM hpredicate
  have hfilter := run_filter hbase hpredicate
  refine ⟨fun k hk => ?_, fun i hlow hi hk place predicate' vs' u' hpredicate' hk' => ?_,
    fun hno => ?_⟩
  · rw [hfilter, picked_of_numbers hlength hn hk]
  · have hlength' := Eval.length_of_run_mapM hpredicate'
    have hfilter' := run_filter (run_reverse place hbase) hpredicate'
    obtain ⟨item, hmem, hitem⟩ := exists_itemAt hlow hi
    have hfloor : ⌊(-i - 1 : ℚ)⌋ = -i - 1 := by exact_mod_cast Int.floor_intCast (-i - 1)
    rw [picked_of_numbers hlength hn hk, Int.floor_intCast, hitem] at hfilter
    rw [← List.length_reverse] at hn hk'
    rw [picked_of_numbers hlength' hn hk', hfloor, itemAt_reverse hlow hi, hitem] at hfilter'
    exact ⟨item, hmem, hfilter, hfilter'⟩
  · rw [hfilter, picked_of_no_numbers hlength hno]

/-- Three items as the input. -/
def sampleItems : List Json := [.bool true, .bool false, .string "last"]

/-- The setting with these items. -/
def sampleItemsSetting : Setting := ⟨.array sampleItems, "", true⟩

/-- The literal of an integer. -/
def integerTree (i : ℤ) (h : Fits64 i) : Tree := .literal (.number (.whole i h))

theorem last_item_and_true_items :
    (eval sampleItemsSetting 2 (.filter .root (integerTree (-1) (by decide))) none [0]).run #[{}] =
        .ok (some (.string "last"), #[{}])
      ∧ (eval sampleItemsSetting 3 (.filter (.call (.builtin .reverse) [.root] 0)
          (integerTree 0 (by decide))) none [0]).run #[{}] = .ok (some (.string "last"), #[{}])
      ∧ (eval sampleItemsSetting 2 (.filter .root .context) none [0]).run #[{}] =
        .ok (some (.array [.bool true, .string "last"]), #[{}]) := by
  have hn : sampleItems.length ≤ Word.maxInt64 := by decide
  have hwhole : ∀ (i : ℤ) (h : Fits64 i),
      AllNumbersAt sampleItems.length i (List.replicate 3 (some (.number (.whole i h)))) :=
    fun i h v hv => ⟨_, List.eq_of_mem_replicate hv, rfl, .inr (by decide)⟩
  obtain ⟨hplace, hback, -⟩ := predicates_select sampleItemsSetting 1 .root
    (integerTree (-1) (by decide)) none [0] #[{}] #[{}] #[{}] sampleItems
    (List.replicate 3 (some (.number (.whole (-1) (by decide))))) hn rfl rfl
  obtain ⟨-, -, htrue⟩ := predicates_select sampleItemsSetting 1 .root .context none [0]
    #[{}] #[{}] #[{}] sampleItems (sampleItems.map some) hn rfl rfl
  have hlast := hplace (-1 : ℤ) (hwhole (-1) (by decide))
  rw [Int.floor_intCast] at hlast
  obtain ⟨item, -, hitem, hreversed⟩ := hback (-1) (by decide) (by decide)
    (hwhole (-1) (by decide)) 0 (integerTree 0 (by decide)) _ #[{}] rfl
    (by simpa using hwhole 0 (by decide))
  rw [hlast] at hitem
  cases hitem
  exact ⟨hlast, hreversed, htrue (by simp [sampleItems])⟩

end Reshape.Expression
