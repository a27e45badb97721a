/-
# Calls in accepted trees

A text compiles exactly if it parses and every call of a built-in function in its tree, at
whatever depth, has a number of arguments that the function takes (`calls_have_their_arities`).
What is inside a tree is said by its parts (`Tree.Inside`), and not by the recursion of the
check.  That check looks at a tree and then at its parts in order (`arityFault?_eq`), so it
misses no call, and a fault that it finds is that of a call inside.
-/
import Reshape.Expression.Compiled
import Reshape.Proofs.Subtrees

namespace Reshape.Expression

namespace Tree

/-! ## The check -/

/-- The fault of the tree itself, if it is a call that its function does not accept. -/
def rootFault? : Tree → Option Fault
  | .call callee args position => callFault? callee args.length position
  | _ => none

theorem arityFaultEntries?_eq (entries : List (Tree × Tree)) :
    arityFaultEntries? entries = arityFaultList? (object entries).parts := by
  rw [parts]
  induction entries with
  | nil => rfl
  | cons e entries ih =>
    obtain ⟨key, value⟩ := e
    rw [arityFaultEntries?, ih]
    rfl

/-- The first fault is that of the tree itself, or else the first one of its parts. -/
theorem arityFault?_eq (t : Tree) :
    t.arityFault? = t.rootFault?.or (arityFaultList? t.parts) := by
  cases t with
  | literal | context | root | field | var | builtin => rfl
  | path | array | block => rfl
  | object entries => exact arityFaultEntries?_eq entries
  | filter | binary | negate | bind | lambda =>
    simp only [arityFault?, rootFault?, parts, arityFaultList?, Option.or_none, Option.none_or]
  | condition test yes no? =>
    cases no? <;> simp [arityFault?, rootFault?, parts, arityFaultList?, arityFaultOption?]
  | call callee args position => rfl

/-- There is no fault in a row exactly if there is none in any of its trees. -/
theorem arityFaultList?_eq_none_iff {ts : List Tree} :
    arityFaultList? ts = none ↔ ∀ t ∈ ts, t.arityFault? = none := by
  induction ts with
  | nil => simp [arityFaultList?]
  | cons t ts ih => rw [arityFaultList?, Option.or_eq_none_iff, ih, List.forall_mem_cons]

/-- A fault in a row is that of one of its trees. -/
theorem exists_mem_of_arityFaultList? {ts : List Tree} {f : Fault}
    (h : arityFaultList? ts = some f) : ∃ t ∈ ts, t.arityFault? = some f := by
  induction ts with
  | nil => cases h
  | cons t ts ih =>
    rw [arityFaultList?, Option.or_eq_some_iff] at h
    rcases h with h | ⟨-, h⟩
    · exact ⟨t, List.mem_cons_self, h⟩
    · obtain ⟨u, hu, hf⟩ := ih h
      exact ⟨u, List.mem_cons_of_mem t hu, hf⟩

/-- **The check misses no tree inside.** -/
theorem arityFault?_eq_none_iff (t : Tree) :
    t.arityFault? = none ↔ ∀ u, Inside u t → u.rootFault? = none := by
  induction t using induction_parts with
  | h t ih =>
    rw [forall_inside_iff, arityFault?_eq, Option.or_eq_none_iff, arityFaultList?_eq_none_iff]
    exact and_congr_right' (forall₂_congr ih)

/-- A fault that the check finds is that of a tree inside. -/
theorem exists_inside_of_arityFault? {t : Tree} {f : Fault} (h : t.arityFault? = some f) :
    ∃ u, Inside u t ∧ u.rootFault? = some f := by
  induction t using induction_parts with
  | h t ih =>
    rw [arityFault?_eq, Option.or_eq_some_iff] at h
    rcases h with h | ⟨-, h⟩
    · exact ⟨t, .root, h⟩
    · obtain ⟨v, hv, hf⟩ := exists_mem_of_arityFaultList? h
      obtain ⟨u, hu, hroot⟩ := ih v hv hf
      exact ⟨u, .part hv hu, hroot⟩

theorem accepts_iff {f : Builtin} {given : Nat} :
    f.accepts given = true ↔ f.arity.1 ≤ given ∧ given ≤ f.arity.2 := by
  rw [Builtin.accepts, Bool.and_eq_true, decide_eq_true_iff, decide_eq_true_iff]

/-- A tree has a fault itself exactly if it calls a built-in function with too few or too many
arguments. -/
theorem rootFault?_eq_some_iff {t : Tree} {fault : Fault} :
    t.rootFault? = some fault ↔ ∃ (f : Builtin) (args : List Tree) (position : Nat),
      t = .call (.builtin f) args position
        ∧ ¬(f.arity.1 ≤ args.length ∧ args.length ≤ f.arity.2)
        ∧ fault = ⟨.arity f.name f.arity.1 f.arity.2 args.length, position⟩ := by
  constructor
  · intro h
    unfold rootFault? at h
    split at h
    · rename_i callee args position
      unfold callFault? at h
      split at h
      · rename_i f
        split at h
        · cases h
        · rename_i hno
          cases h
          exact ⟨f, args, position, rfl, fun hyes => hno (accepts_iff.2 hyes), rfl⟩
      · cases h
    · cases h
  · rintro ⟨f, args, position, rfl, hno, rfl⟩
    have haccepts : f.accepts args.length = false :=
      Bool.eq_false_iff.2 fun hyes => hno (accepts_iff.1 hyes)
    rw [rootFault?, callFault?, haccepts]
    rfl

/-- Every built-in function that is called inside the tree takes as many arguments as it is
given. -/
def RespectsArities (t : Tree) : Prop :=
  ∀ (f : Builtin) (args : List Tree) (position : Nat),
    Inside (.call (.builtin f) args position) t →
      f.arity.1 ≤ args.length ∧ args.length ≤ f.arity.2

/-- **The check accepts exactly the trees whose calls have their arities.** -/
theorem arityFault?_eq_none_iff_respectsArities {t : Tree} :
    t.arityFault? = none ↔ t.RespectsArities := by
  rw [arityFault?_eq_none_iff]
  constructor
  · intro h f args position hinside
    by_contra hno
    have hfault := rootFault?_eq_some_iff.2 ⟨f, args, position, rfl, hno, rfl⟩
    rw [h _ hinside] at hfault
    cases hfault
  · intro h u hu
    by_contra hfault
    obtain ⟨fault, hfault⟩ := Option.ne_none_iff_exists'.1 hfault
    obtain ⟨f, args, position, rfl, hno, -⟩ := rootFault?_eq_some_iff.1 hfault
    exact hno (h f args position hu)

end Tree

/-! ## Whole texts -/

/-- A text that parses compiles to the tree that was parsed, unless the check finds a fault. -/
theorem compileTree_of_parse {source : String} {t : Tree} (h : parse source = .ok t) :
    compileTree source = match t.arityFault? with
      | some fault => .error fault
      | none => .ok t := by
  rw [compileTree, h]
  rfl

/-- A text that does not parse does not compile, for the same fault. -/
theorem compileTree_of_parse_error {source : String} {fault : Fault}
    (h : parse source = .error fault) : compileTree source = .error fault := by
  rw [compileTree, h]
  rfl

/-- **Accepted calls have their arities.**  A text compiles to a tree exactly if it parses to
that tree and every call of a built-in function inside it, at whatever depth, has a number of
arguments within the bounds of the function.  A text that parses and does not compile has a call
inside its tree that is out of bounds, and the fault is that of the call, at its place. -/
theorem calls_have_their_arities (source : String) :
    (∀ t, compileTree source = .ok t ↔ parse source = .ok t ∧ t.RespectsArities)
      ∧ ∀ t fault, parse source = .ok t → compileTree source = .error fault →
        ∃ (f : Builtin) (args : List Tree) (position : Nat),
          Tree.Inside (.call (.builtin f) args position) t
            ∧ ¬(f.arity.1 ≤ args.length ∧ args.length ≤ f.arity.2)
            ∧ fault = ⟨.arity f.name f.arity.1 f.arity.2 args.length, position⟩ := by
  constructor
  · intro t
    rw [← Tree.arityFault?_eq_none_iff_respectsArities]
    cases hparse : parse source with
    | error fault => simp [compileTree_of_parse_error hparse]
    | ok u =>
      rw [compileTree_of_parse hparse]
      constructor
      · intro h
        split at h
        · cases h
        · rename_i hnone
          cases h
          exact ⟨rfl, hnone⟩
      · rintro ⟨h, hnone⟩
        cases h
        rw [hnone]
  · intro t fault hparse hcompile
    rw [compileTree_of_parse hparse] at hcompile
    split at hcompile
    · rename_i found hfound
      cases hcompile
      obtain ⟨u, hu, hroot⟩ := Tree.exists_inside_of_arityFault? hfound
      obtain ⟨f, args, position, rfl, hno, hfault⟩ := Tree.rootFault?_eq_some_iff.1 hroot
      exact ⟨f, args, position, hu, hno, hfault⟩
    · cases hcompile

/-- The left side of a chain is counted. -/
example : compileTree "['a'] ~> $join('-', ';')" = .error ⟨.arity "join" 1 2 3, 9⟩ := by cbv

end Reshape.Expression
