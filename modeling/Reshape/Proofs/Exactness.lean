/-
# What equality can mistake

Equal documents are the same but for the order of members and for numbers, and numbers are equal
if they have the same nearest double.  Whole numbers from 2⁵³ on need not be doubles, so that two
of them can be equal and still differ (`different_numbers_are_equal`).  If all numbers of the
one document are below 2⁵³ in magnitude, it equals no document with other values
(`equals_iff_alike_value`).

An item that a comparison selects as a predicate is one for which both sides had values, and these
were equal (`Eval.equal_of_mem_filter`).
-/
import Mathlib.Tactic
import Reshape.Expression.Evaluation
import Reshape.Proofs.Distinct
import Reshape.Proofs.Sequencing

namespace Reshape

/-! ## Numbers and their values -/

/-- The numbers have the same exact value. -/
def Number.SameValue (x y : Number) : Prop := x.value = y.value

/-- The number is below 2⁵³ in magnitude. -/
def Number.IsSmall (x : Number) : Prop := |x.value| < 2 ^ 53

theorem Number.SameValue.sameDouble {x y : Number} (h : x.SameValue y) : x.SameDouble y := by
  have hdouble : x.IsDouble → x.SameDouble y := by
    intro hx
    have hy : y.IsDouble := hx.imp fun _ hd => hd.trans h
    exact (value_double_of_isDouble hx).trans (h.trans (value_double_of_isDouble hy).symm)
  cases x with
  | real d => exact hdouble (isDouble_real d)
  | whole m hm =>
    cases y with
    | real d => exact hdouble ⟨d, h.symm⟩
    | whole n hn =>
      have hmn : m = n := Int.cast_injective h
      subst hmn
      rfl

/-- A relation of numbers may be replaced by one that is the same on the numbers at hand. -/
theorem Json.Alike.imp_of_allNumbers {P : Number → Prop} {R S : Number → Number → Prop}
    {v w : Json} (h : Alike R v w) (hv : v.AllNumbers P) (hRS : ∀ x y, P x → R x y → S x y) :
    Alike S v w := by
  induction h with
  | null => exact .null
  | bool b => exact .bool b
  | number h =>
    cases hv with
    | number hx => exact .number (hRS _ _ hx h)
  | string s => exact .string s
  | array hlength _ ih =>
    cases hv with
    | array hv =>
      exact .array hlength fun i v w hi hi' => ih i v w hi hi' (hv v (List.mem_of_getElem? hi))
  | object hnames _ ih =>
    cases hv with
    | object hv =>
      exact .object hnames fun k v w hk hk' =>
        ih k v w hk hk' (hv (k, v) (Members.mem_of_get? hk))

namespace Expression

open Json (Alike)
open Library (distinctFrom)

variable {v w : Json}

/-! ## Equality by value -/

/-- **Documents of which one has small numbers only are equal exactly if they have the same
values.** -/
theorem equals_iff_alike_value (hv : v.WellFormed) (hw : w.WellFormed)
    (hsmall : v.AllNumbers Number.IsSmall ∨ w.AllNumbers Number.IsSmall) :
    Equals v w ↔ Alike Number.SameValue v w := by
  have hvalue : ∀ x y, Number.IsSmall x → Number.SameDouble x y → Number.SameValue x y :=
    fun x y hx hxy => (Number.sameNumber_iff_of_abs_lt hx).1 (Number.sameNumber_iff.2 hxy)
  rw [equals_iff_alike hv hw]
  constructor
  · intro h
    rcases hsmall with hsmall | hsmall
    · exact h.imp_of_allNumbers hsmall hvalue
    · have hback := (h.symm fun _ _ => Eq.symm).imp_of_allNumbers hsmall hvalue
      exact hback.symm fun _ _ => Eq.symm
  · exact fun h => h.imp fun _ _ => Number.SameValue.sameDouble

/-! ## Predicates -/

namespace Eval

variable {setting : Setting} {α β : Type}

/-- What a predicate keeps is an item that it selected, run from where the items before it
left. -/
theorem exists_of_mem_selected {predicate : Json → Eval Value} {count index : Nat}
    {items kept : List Json} {s s' : Frames}
    (h : (selected predicate count index items).run s = .ok (kept, s')) (hv : v ∈ kept) :
    ∃ before behind vs t x t', items = before ++ v :: behind ∧
      (before.mapM predicate).run s = .ok (vs, t) ∧ (predicate v).run t = .ok (x, t') ∧
      selects count (index + before.length) x = true := by
  induction items generalizing index kept s with
  | nil =>
    cases h
    cases hv
  | cons item rest ih =>
    obtain ⟨x, t, hx, h⟩ := exists_of_run_bind h
    obtain ⟨later, t', hlater, h⟩ := exists_of_run_bind h
    cases h
    by_cases hselects : selects count index x = true ∧ v = item
    · obtain ⟨hselects, rfl⟩ := hselects
      exact ⟨[], rest, [], s, x, t, rfl, rfl, hx, hselects⟩
    · have hmem : v ∈ later := by
        split at hv
        · rename_i hs
          exact (List.mem_cons.1 hv).resolve_left fun heq => hselects ⟨hs, heq⟩
        · exact hv
      obtain ⟨before, behind, vs, u, y, u', rfl, hbefore, hy, hselected⟩ := ih hlater hmem
      refine ⟨item :: before, behind, x :: vs, u, y, u', rfl, ?_, hy, ?_⟩
      · rw [List.mapM_cons, run_bind_of_ok hx, run_bind_of_ok hbefore]
        rfl
      · rw [List.length_cons, ← Nat.add_assoc, Nat.add_right_comm]
        exact hselected

/-- The comparison `l = r` is run on the item from these frames, and both of its sides have
values, which are equal. -/
def SidesEqual (setting : Setting) (depth : Nat) (scope : Scope) (l r : Tree) (s : Frames)
    (item : Json) : Prop :=
  ∃ below t u a b, depth = below + 1 ∧
    (eval setting below l (some item) scope).run s = .ok (some a, t) ∧
    (eval setting below r (some item) scope).run t = .ok (some b, u) ∧ Equals a b

/-- A comparison that selects has equal sides. -/
theorem sidesEqual_of_selects {depth count index : Nat} {l r : Tree} {scope : Scope}
    {item : Json} {s s' : Frames} {x : Value}
    (h : (eval setting depth (.binary .equal l r) (some item) scope).run s = .ok (x, s'))
    (hx : selects count index x = true) : SidesEqual setting depth scope l r s item := by
  cases depth with
  | zero => cases h
  | succ depth =>
    obtain ⟨a, t, hl, h⟩ := exists_of_run_bind h
    obtain ⟨b, u, hr, h⟩ := exists_of_run_bind h
    cases a with
    | none =>
      cases h
      cases hx
    | some a =>
      cases b with
      | none =>
        cases h
        cases hx
      | some b =>
        cases h
        refine ⟨depth, t, _, a, b, rfl, hl, hr, equals_iff_same.2 ?_⟩
        exact eq_of_beq (hx : (same a b == true) = true)

/-- **What a comparison keeps as a predicate has equal sides**, in the frames that the comparison
of the items before it leaves. -/
theorem equal_of_mem_filter {depth : Nat} {base l r : Tree} {context : Value} {scope : Scope}
    {s s' : Frames} {x : Value}
    (h : (eval setting (depth + 1) (.filter base (.binary .equal l r)) context scope).run s =
      .ok (x, s')) :
    ∃ v t kept, (eval setting depth base context scope).run s = .ok (v, t) ∧ x = sequence kept ∧
      ∀ item ∈ kept, ∃ before behind vs u, v.elim [] itemsOf = before ++ item :: behind ∧
        (before.mapM fun item => eval setting depth (.binary .equal l r) (some item) scope).run t =
          .ok (vs, u) ∧
        SidesEqual setting depth scope l r u item := by
  obtain ⟨v, t, hbase, h⟩ := exists_of_run_bind h
  cases v with
  | none =>
    cases h
    exact ⟨none, _, [], hbase, rfl, List.forall_mem_nil _⟩
  | some v =>
    have hmap : (sequence <$> (selected
        (fun item => eval setting depth (.binary .equal l r) (some item) scope)
        (itemsOf v).length 0 (itemsOf v) : Eval (List Json))).run t = .ok (x, s') := h
    rw [map_eq_pure_bind] at hmap
    obtain ⟨kept, t', hkept, h⟩ := exists_of_run_bind hmap
    cases h
    refine ⟨some v, t, kept, hbase, rfl, fun item hitem => ?_⟩
    obtain ⟨before, behind, vs, u, y, u', hitems, hbefore, hy, hselects⟩ :=
      exists_of_mem_selected hkept hitem
    exact ⟨before, behind, vs, u, hitems, hbefore, sidesEqual_of_selects hy hselects⟩

end Eval

/-! ## What can be mistaken, and what cannot -/

/-- **Equality compares numbers by their nearest doubles and identifies nothing else.**  Numbers
that are doubles are compared by value, and so are any two of which one is below 2⁵³ in
magnitude; a document all of whose numbers are, equals another exactly if they have the same
values, the order of members aside.  So in a predicate it selects no other for it, and
`$distinct` does not drop it for another. -/
theorem equality_is_exact_on_small_numbers :
    (∀ a b : Json, a.WellFormed → b.WellFormed →
      (Equals a b ↔ Alike Number.SameDouble a b)) ∧
    (∀ x y : Number, x.IsSmall ∨ y.IsSmall ∨ x.IsDouble ∧ y.IsDouble →
      (Equals (.number x) (.number y) ↔ x.value = y.value)) ∧
    (∀ a b : Json, a.WellFormed → b.WellFormed →
      a.AllNumbers Number.IsSmall ∨ b.AllNumbers Number.IsSmall →
      (Equals a b ↔ Alike Number.SameValue a b)) ∧
    (∀ (setting : Setting) (depth : Nat) (base l r : Tree) (context : Value) (scope : Scope)
      (s s' : Frames) (x : Value),
      (eval setting (depth + 1) (.filter base (.binary .equal l r)) context scope).run s =
        .ok (x, s') →
      ∃ v t kept, (eval setting depth base context scope).run s = .ok (v, t) ∧
        x = sequence kept ∧
        ∀ item ∈ kept, ∃ before behind vs u, v.elim [] itemsOf = before ++ item :: behind ∧
          (before.mapM fun item =>
            eval setting depth (.binary .equal l r) (some item) scope).run t = .ok (vs, u) ∧
          Eval.SidesEqual setting depth scope l r u item) ∧
    ∀ (now : String) (items : List Json), (Json.array items).WellFormed →
      ∃ kept, Library.apply .distinct now [some (.array items)] = .ok (some (.array kept)) ∧
        ∀ v ∈ items, ∃ w ∈ kept, Equals w v ∧
          (v.AllNumbers Number.IsSmall ∨ w.AllNumbers Number.IsSmall →
            Alike Number.SameValue w v) := by
  refine ⟨fun a b => equals_iff_alike, ?_, ?_, ?_, ?_⟩
  · intro x y h
    rw [equals_iff_same, same]
    rcases h with hx | hy | ⟨hx, hy⟩
    · exact Number.sameNumber_iff_of_abs_lt hx
    · rw [Number.sameNumber_comm, Number.sameNumber_iff_of_abs_lt hy, eq_comm]
    · exact Number.sameNumber_iff_of_isDouble hx hy
  · exact fun a b => equals_iff_alike_value
  · exact fun _ _ _ _ _ _ _ _ _ _ => Eval.equal_of_mem_filter
  · intro now items hitems
    have hitems := Json.wellFormed_array.1 hitems
    refine ⟨_, apply_distinct now items, fun v hv => ?_⟩
    obtain ⟨w, hw, hequal⟩ := exists_equals_of_mem [] hitems hv
    have hwell := hitems w ((distinctFrom_sublist [] items).subset hw)
    exact ⟨w, hw, hequal, fun h =>
      (equals_iff_alike_value hwell (hitems v hv) h.symm).1 hequal⟩

/-- The whole numbers 2⁵³ + 1 and 2⁵³ differ, but they are equal, and of an array that has both
`$distinct` drops the second. -/
theorem different_numbers_are_equal :
    ∃ a b : Number, a = .whole 9007199254740993 (by decide) ∧
      b = .whole 9007199254740992 (by decide) ∧ Equals (.number a) (.number b) ∧
      ¬ Alike Number.SameValue (.number a) (.number b) ∧
      Library.apply .distinct "" [some (.array [.number a, .number b])] =
        .ok (some (.array [.number a])) := by
  have hequal : Expression.sameNumber (.whole 9007199254740993 (by decide))
      (.whole 9007199254740992 (by decide)) = true := by decide +kernel
  refine ⟨_, _, rfl, rfl, equals_iff_same.2 hequal, ?_, ?_⟩
  · rw [Json.alike_number_iff, Number.SameValue, Number.value, Number.value]
    norm_num
  · rw [apply_distinct, distinctFrom, List.any_nil, if_neg Bool.false_ne_true, distinctFrom,
      List.any_cons, same, hequal, Bool.true_or, if_pos rfl, distinctFrom]

end Expression

end Reshape
