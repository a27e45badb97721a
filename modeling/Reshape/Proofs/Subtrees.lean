/-
# Trees inside trees

The trees right below the root of a tree (`parts`), those at any depth (`Inside`), and what is
computed from all trees inside: how many levels there are (`height`), and whether all of them
are of a kind (`all`).  All this is known of a tree once it is known of its parts, so that
proofs about trees go from the parts to the whole (`induction_parts`).
-/
import Mathlib.Tactic
import Reshape.Expression.Tree

namespace Reshape.Expression.Tree

/-- The trees right below the root. -/
def parts : Tree → List Tree
  | .literal _ | .context | .root | .field _ | .var _ | .builtin _ => []
  | .path steps => steps
  | .filter base predicate => [base, predicate]
  | .binary _ l r => [l, r]
  | .negate v => [v]
  | .condition test yes no? => test :: yes :: no?.toList
  | .array items => items
  | .object entries => entries.flatMap fun e => [e.1, e.2]
  | .block items => items
  | .bind _ v => [v]
  | .lambda _ body => [body]
  | .call callee args _ => callee :: args

theorem forall_mem_parts_object {P : Tree → Prop} {entries : List (Tree × Tree)} :
    (∀ u ∈ (object entries).parts, P u) ↔ ∀ e ∈ entries, P e.1 ∧ P e.2 := by
  rw [parts, List.forall_mem_flatMap]
  simp only [List.forall_mem_cons, List.not_mem_nil, false_imp_iff, implies_true, and_true]

/-- A tree is inside itself, and inside every tree of which it is inside a part. -/
inductive Inside (u : Tree) : Tree → Prop
  | root : Inside u u
  | part {t v : Tree} (hv : v ∈ t.parts) (h : Inside u v) : Inside u t

/-- What is inside a tree is the tree itself, or it is inside a part. -/
theorem forall_inside_iff {P : Tree → Prop} {t : Tree} :
    (∀ u, Inside u t → P u) ↔ P t ∧ ∀ v ∈ t.parts, ∀ u, Inside u v → P u := by
  constructor
  · intro h
    exact ⟨h t .root, fun v hv u hu => h u (.part hv hu)⟩
  · rintro ⟨hroot, hparts⟩ u hu
    cases hu with
    | root => exact hroot
    | part hv h => exact hparts _ hv u h

/-! ## Height -/

mutual

/-- The number of levels of a tree. -/
def height : Tree → Nat
  | .literal _ | .context | .root | .field _ | .var _ | .builtin _ => 1
  | .path steps => heightList steps + 1
  | .filter base predicate => max base.height predicate.height + 1
  | .binary _ l r => max l.height r.height + 1
  | .negate v => v.height + 1
  | .condition test yes no? => max test.height (max yes.height (heightOption no?)) + 1
  | .array items => heightList items + 1
  | .object entries => heightEntries entries + 1
  | .block items => heightList items + 1
  | .bind _ v => v.height + 1
  | .lambda _ body => body.height + 1
  | .call callee args _ => max callee.height (heightList args) + 1

/-- The greatest height in a row of trees. -/
def heightList : List Tree → Nat
  | [] => 0
  | t :: rest => max t.height (heightList rest)

/-- The height of a tree that may be missing. -/
def heightOption : Option Tree → Nat
  | none => 0
  | some t => t.height

/-- The greatest height in a row of members. -/
def heightEntries : List (Tree × Tree) → Nat
  | [] => 0
  | (k, v) :: rest => max k.height (max v.height (heightEntries rest))

end

theorem heightList_le_iff {ts : List Tree} {n : Nat} :
    heightList ts ≤ n ↔ ∀ t ∈ ts, t.height ≤ n := by
  induction ts with
  | nil => simp [heightList]
  | cons t ts ih => rw [heightList, Nat.max_le, ih, List.forall_mem_cons]

theorem heightEntries_le_iff {entries : List (Tree × Tree)} {n : Nat} :
    heightEntries entries ≤ n ↔ ∀ e ∈ entries, e.1.height ≤ n ∧ e.2.height ≤ n := by
  induction entries with
  | nil => simp [heightEntries]
  | cons e entries ih =>
    obtain ⟨key, value⟩ := e
    rw [heightEntries, Nat.max_le, Nat.max_le, ih, List.forall_mem_cons, and_assoc]

/-- A tree has one level more than its parts. -/
theorem height_le_succ_iff {t : Tree} {n : Nat} :
    t.height ≤ n + 1 ↔ ∀ u ∈ t.parts, u.height ≤ n := by
  cases t with
  | literal | context | root | field | var | builtin => simp [height, parts]
  | path | array | block => rw [height, Nat.succ_le_succ_iff, heightList_le_iff, parts]
  | filter | binary | negate | bind | lambda => simp [height, parts]
  | condition test yes no? => cases no? <;> simp [height, heightOption, parts]
  | object entries =>
    rw [height, Nat.succ_le_succ_iff, heightEntries_le_iff, forall_mem_parts_object]
  | call callee args => simp [height, heightList_le_iff, parts]

theorem height_pos (t : Tree) : 0 < t.height := by
  cases t <;> simp [height]

/-- What holds of a tree if it holds of its parts holds of all trees. -/
theorem induction_parts {P : Tree → Prop} (h : ∀ t : Tree, (∀ u ∈ t.parts, P u) → P t)
    (t : Tree) : P t := by
  -- on a bound of the height, which is smaller for the parts
  have hbound : ∀ n, ∀ u : Tree, u.height ≤ n → P u := by
    intro n
    induction n with
    | zero => exact fun u hu => absurd u.height_pos (by omega)
    | succ n ih => exact fun u hu => h u fun v hv => ih v (height_le_succ_iff.1 hu v hv)
  exact hbound t.height t le_rfl

/-! ## All trees inside -/

mutual

/-- Whether a condition holds of a tree and of all trees inside. -/
def all (p : Tree → Bool) : Tree → Bool
  | .path steps => p (.path steps) && allList p steps
  | .filter base predicate => p (.filter base predicate) && (base.all p && predicate.all p)
  | .binary op l r => p (.binary op l r) && (l.all p && r.all p)
  | .negate v => p (.negate v) && v.all p
  | .condition test yes no? =>
    p (.condition test yes no?) && (test.all p && (yes.all p && allOption p no?))
  | .array items => p (.array items) && allList p items
  | .object entries => p (.object entries) && allEntries p entries
  | .block items => p (.block items) && allList p items
  | .bind name v => p (.bind name v) && v.all p
  | .lambda params body => p (.lambda params body) && body.all p
  | .call callee args position =>
    p (.call callee args position) && (callee.all p && allList p args)
  | .literal v => p (.literal v)
  | .context => p .context
  | .root => p .root
  | .field name => p (.field name)
  | .var name => p (.var name)
  | .builtin f => p (.builtin f)

/-- Whether a condition holds of all trees of a row and inside them. -/
def allList (p : Tree → Bool) : List Tree → Bool
  | [] => true
  | t :: rest => t.all p && allList p rest

/-- Whether a condition holds of a tree that may be missing, and inside it. -/
def allOption (p : Tree → Bool) : Option Tree → Bool
  | none => true
  | some t => t.all p

/-- Whether a condition holds of all trees of a row of members and inside them. -/
def allEntries (p : Tree → Bool) : List (Tree × Tree) → Bool
  | [] => true
  | (k, v) :: rest => k.all p && (v.all p && allEntries p rest)

end

theorem allList_iff {p : Tree → Bool} {ts : List Tree} :
    allList p ts = true ↔ ∀ t ∈ ts, t.all p = true := by
  induction ts with
  | nil => simp [allList]
  | cons t ts ih => rw [allList, Bool.and_eq_true, ih, List.forall_mem_cons]

theorem allEntries_iff {p : Tree → Bool} {entries : List (Tree × Tree)} :
    allEntries p entries = true ↔ ∀ e ∈ entries, e.1.all p = true ∧ e.2.all p = true := by
  induction entries with
  | nil => simp [allEntries]
  | cons e entries ih =>
    obtain ⟨key, value⟩ := e
    rw [allEntries, Bool.and_eq_true, Bool.and_eq_true, ih, List.forall_mem_cons, and_assoc]

/-- A condition holds of all trees inside if it holds of the tree and inside its parts. -/
theorem all_iff {p : Tree → Bool} {t : Tree} :
    t.all p = true ↔ p t = true ∧ ∀ u ∈ t.parts, u.all p = true := by
  cases t with
  | literal | context | root | field | var | builtin => simp [all, parts]
  | path | array | block => rw [all, Bool.and_eq_true, allList_iff, parts]
  | filter | binary | negate | bind | lambda => simp [all, parts]
  | condition test yes no? => cases no? <;> simp [all, allOption, parts]
  | object entries =>
    rw [all, Bool.and_eq_true, allEntries_iff, forall_mem_parts_object]
  | call callee args => simp [all, allList_iff, parts]

/-- A condition holds of all trees inside, at whatever depth. -/
theorem all_iff_forall_inside {p : Tree → Bool} {t : Tree} :
    t.all p = true ↔ ∀ u, Inside u t → p u = true := by
  induction t using induction_parts with
  | h t ih =>
    rw [all_iff, forall_inside_iff]
    exact and_congr_right' (forall₂_congr ih)

/-- Whether there is no function in a tree. -/
def lambdaFree (t : Tree) : Bool :=
  t.all fun
    | .lambda _ _ => false
    | _ => true

theorem lambdaFree_of_mem_parts {t u : Tree} (h : t.lambdaFree = true) (hu : u ∈ t.parts) :
    u.lambdaFree = true :=
  (all_iff.1 h).2 u hu

theorem not_lambdaFree_lambda (params : List String) (body : Tree) :
    (Tree.lambda params body).lambdaFree = false := by
  rw [lambdaFree, all, Bool.false_and]

end Reshape.Expression.Tree
