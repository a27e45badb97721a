/-
# Levels of accepted trees

The parser grants an expression so many levels: each expression inside takes one, and so
does each operator but the dot.  Levels are given back when an expression ends, also when
it goes on to be the left operand of an operator outside.  So the levels granted do not
bound the height of the tree, only their square does (`after_below`), and there are
accepted trees with more levels than there are for an evaluation (`compileTree_sumOfOnes`).
A tree without functions is evaluated if there are as many levels as it is high
(`evaluate_ne_nestedTooDeep`).

The bound is on the *reach* of a tree, its height once a step is added to it: a path has
room for one, which is why the parser does not count dots.
-/
import Mathlib.Tactic
import Reshape.Expression.Compiled
import Reshape.Proofs.Lifetime
import Reshape.Proofs.Parsing

namespace Reshape.Expression

/-! ## Reach -/

namespace Tree

/-- The height that a tree has once a step is added to it: a path has room for one. -/
def reach : Tree → Nat
  | .path steps => (Tree.path steps).height
  | t => t.height + 1

theorem height_le_reach (t : Tree) : t.height ≤ t.reach := by
  unfold reach
  split
  · exact le_rfl
  · exact Nat.le_succ _

theorem reach_le_succ_height (t : Tree) : t.reach ≤ t.height + 1 := by
  unfold reach
  split
  · exact Nat.le_succ _
  · exact le_rfl

/-- A tree made of parts reaches at most two levels higher than they do. -/
theorem reach_le_of_parts {t : Tree} {n : Nat} (h : ∀ u ∈ t.parts, u.height ≤ n) :
    t.reach ≤ n + 2 :=
  t.reach_le_succ_height.trans (Nat.succ_le_succ (height_le_succ_iff.2 h))

theorem height_le_of_reach_le {t : Tree} {n : Nat} (h : t.reach ≤ n) : t.height ≤ n :=
  t.height_le_reach.trans h

end Tree

namespace Parser

/-- A step is added to a path without a level more, and to another tree with the one that
was counted for it. -/
theorem reach_addStep {left step : Tree} {n : Nat} (hleft : left.reach ≤ n + 1)
    (hstep : step.height ≤ n) : (addStep left step).reach ≤ n + 1 := by
  unfold addStep
  split
  · rename_i steps
    have hsteps := Tree.height_le_succ_iff.1 hleft
    refine Tree.height_le_succ_iff.2 fun u hu => ?_
    rcases List.mem_append.1 hu with hu | hu
    · exact hsteps u hu
    · rw [List.mem_singleton.1 hu]
      exact hstep
  · rename_i hpath
    have hheight : left.height ≤ n := by
      rw [Tree.reach] at hleft
      · omega
      · exact hpath
    refine Tree.height_le_succ_iff.2 ?_
    simpa [Tree.parts] using ⟨hheight, hstep⟩

theorem reach_chained {left right t : Tree} {position n : Nat}
    (h : chained left right position = .ok t) (hleft : left.height ≤ n)
    (hright : right.height ≤ n) : t.reach ≤ n + 2 := by
  unfold chained at h
  split at h
  · rename_i callee args at_
    cases h
    have hparts := Tree.height_le_succ_iff.1 (hright.trans (Nat.le_succ n))
    refine Tree.reach_le_of_parts ?_
    simp only [Tree.parts, List.forall_mem_cons] at hparts ⊢
    exact ⟨hparts.1, hleft, hparts.2⟩
  all_goals cases h
  all_goals
    refine Tree.reach_le_of_parts ?_
    simpa [Tree.parts] using ⟨hright, hleft⟩

/-! ## What the parser yields -/

section Operands

variable {expr : Nat → Parser Tree} {b : Nat}
variable (hb : 1 ≤ b) (hexpr : ∀ power s, After (expr power) s fun t _ => t.reach ≤ b)

include hexpr

theorem after_block (s : ParseState) : After (block expr) s fun t _ => t.reach ≤ b + 2 := by
  refine after_step fun n s => ?_
  refine after_bind ((after_blockFrom hexpr (n + 1) (List.forall_mem_nil _) s).imp ?_)
  intro items s hitems
  refine after_step fun _ s => ?_
  have hparts : ∀ t ∈ items, t.height ≤ b :=
    fun t ht => Tree.height_le_of_reach_le (hitems t ht)
  split
  · split
    · exact after_pure (Tree.reach_le_of_parts hparts)
    · exact after_pure ((hitems _ List.mem_cons_self).trans (Nat.le_add_right _ _))
  · exact after_pure (Tree.reach_le_of_parts hparts)

theorem after_lambda (s : ParseState) : After (lambda expr) s fun t _ => t.reach ≤ b + 2 := by
  refine after_step fun _ s => after_step fun params s => after_step fun _ s => ?_
  refine after_bind ((hexpr 0 s).imp fun body s hbody => after_step fun _ s => after_pure ?_)
  refine Tree.reach_le_of_parts ?_
  simpa [Tree.parts] using Tree.height_le_of_reach_le hbody

omit hexpr in
/-- A variable or a built-in is all that a name stands for. -/
theorem after_named (name : String) (position : Nat) (s : ParseState) :
    After (named name position) s fun t _ => t.height = 1 := by
  refine after_get ?_
  split
  · exact after_pure rfl
  · split
    · exact after_pure rfl
    · refine after_at? ?_
      split
      · exact after_throw
      · exact after_throw

include hb

theorem after_variableUse (name : String) (position : Nat) (s : ParseState) :
    After (variableUse expr name position) s fun t _ => t.reach ≤ b + 2 := by
  refine after_at? ?_
  split
  · exact after_step fun _ s => after_pure (Tree.reach_le_of_parts (List.forall_mem_nil _))
  · refine after_bind ((after_named name position s).imp fun callee s hcallee => ?_)
    refine after_step fun called s => ?_
    cases called with
    | true =>
      refine after_bind ((after_items (hexpr 0) s).imp fun args s hargs => after_pure ?_)
      refine Tree.reach_le_of_parts (List.forall_mem_cons.2 ⟨hcallee.trans_le hb, ?_⟩)
      exact fun t ht => Tree.height_le_of_reach_le (hargs t ht)
    | false =>
      have hreach := callee.reach_le_succ_height
      exact after_pure (by omega)

/-- An operand reaches at most two levels higher than the expressions inside. -/
theorem after_operand (s : ParseState) : After (operand expr) s fun t _ => t.reach ≤ b + 2 := by
  have hleaf : ∀ t : Tree, t.parts = [] → t.reach ≤ b + 2 := by
    intro t ht
    refine Tree.reach_le_of_parts ?_
    rw [ht]
    exact List.forall_mem_nil _
  refine after_step fun t s => ?_
  obtain ⟨token, position⟩ := t
  cases token with
  | number x => exact after_pure (hleaf _ rfl)
  | string x => exact after_pure (hleaf _ rfl)
  | name name =>
    have hname : ∀ s, After (pure (nameOperand name)) s fun t _ => t.reach ≤ b + 2 := by
      intro s
      refine after_pure (hleaf _ ?_)
      unfold nameOperand
      split_ifs <;> rfl
    simp only
    split_ifs
    · refine after_at? ?_
      split
      · exact after_lambda hexpr s
      · exact hname s
    · exact hname s
  | var name =>
    simp only
    split_ifs
    · exact after_pure (hleaf _ rfl)
    · exact after_pure (hleaf _ rfl)
    · exact after_variableUse hb hexpr name position s
  | symbol o =>
    cases o with
    | minus =>
      refine after_bind ((hexpr negationPower s).imp fun v s hv => after_pure ?_)
      refine Tree.reach_le_of_parts ?_
      simpa [Tree.parts] using Tree.height_le_of_reach_le hv
    | openParen => exact after_block hexpr s
    | openBracket =>
      refine after_bind ((after_items (hexpr 0) s).imp fun items s hitems => after_pure ?_)
      exact Tree.reach_le_of_parts fun t ht => Tree.height_le_of_reach_le (hitems t ht)
    | openBrace =>
      refine after_bind ((after_items (after_entry hexpr) s).imp fun es s hes => after_pure ?_)
      refine Tree.reach_le_of_parts (Tree.forall_mem_parts_object.2 fun e he => ?_)
      exact (hes e he).imp Tree.height_le_of_reach_le Tree.height_le_of_reach_le
    | _ => exact after_throw
  | done => exact after_throw

omit hb

/-- An operator adds at most two to what its left operand reaches, and a dot nothing. -/
theorem after_operation {left : Tree} {n : Nat} (hleft : left.reach ≤ n + 1) (hbn : b ≤ n)
    (s : ParseState) :
    After (operation expr left) s fun t _ =>
      t.reach ≤ n + 3 ∧ (s.here.token = .symbol .dot → t.reach ≤ n + 1) := by
  have hheight := Tree.height_le_of_reach_le hleft
  have hinside : ∀ {t : Tree}, t.reach ≤ b → t.height ≤ n + 1 :=
    fun ht => (Tree.height_le_of_reach_le ht).trans (hbn.trans (Nat.le_succ n))
  -- what other operators yield
  have hother : ∀ {o : Symbol} {t : Tree}, o ≠ .dot → t.reach ≤ n + 3 →
      t.reach ≤ n + 3 ∧ (Token.symbol o = .symbol .dot → t.reach ≤ n + 1) :=
    fun ho ht => ⟨ht, fun he => absurd (Token.symbol.inj he) ho⟩
  refine after_bind (after_take.imp fun t s' ht => ?_)
  rw [← ht]
  obtain ⟨token, position⟩ := t
  simp only
  split
  · -- a step
    refine after_bind ((hexpr stepPower s').imp fun step s' hstep => after_pure ?_)
    have hadd := reach_addStep hleft ((Tree.height_le_of_reach_le hstep).trans hbn)
    exact ⟨hadd.trans (by omega), fun _ => hadd⟩
  · -- a predicate
    refine after_at? ?_
    split
    · exact after_bind after_failHere
    · refine after_bind ((hexpr 0 s').imp fun v s' hv => after_step fun _ s' => after_pure ?_)
      refine hother (by decide) (Tree.reach_le_of_parts ?_)
      simpa [Tree.parts] using ⟨hheight, hinside hv⟩
  · -- a condition
    refine after_bind ((hexpr 0 s').imp fun yes s' hyes => after_step fun more s' => ?_)
    cases more with
    | true =>
      refine after_bind ((hexpr 0 s').imp fun no s' hno => after_pure ?_)
      refine hother (by decide) (Tree.reach_le_of_parts ?_)
      simpa [Tree.parts] using ⟨hheight, hinside hyes, hinside hno⟩
    | false =>
      refine after_pure (hother (by decide) (Tree.reach_le_of_parts ?_))
      simpa [Tree.parts] using ⟨hheight, hinside hyes⟩
  · -- a binding
    split
    · refine after_bind ((hexpr bindPower s').imp fun v s' hv => after_pure ?_)
      refine hother (by decide) (Tree.reach_le_of_parts ?_)
      simpa [Tree.parts] using hinside hv
    · exact after_throw
  · -- a chain
    refine after_bind ((hexpr chainPower s').imp fun right s' hright => ?_)
    exact after_lift fun t ht => hother (by decide) (reach_chained ht hheight (hinside hright))
  · exact after_throw
  · split
    · -- an operator between two operands
      refine after_bind ((hexpr _ s').imp fun v s' hv => after_pure ⟨?_, ?_⟩)
      · refine Tree.reach_le_of_parts ?_
        simpa [Tree.parts] using ⟨hheight, hinside hv⟩
      · exact fun hdot => absurd hdot (by assumption)
    · exact after_throw

end Operands

/-- Each operator that is counted adds at most two. -/
theorem after_operationsFrom {below : Nat → Nat → Parser Tree} {b : Nat}
    (hbelow : ∀ levels power s, After (below levels power) s fun t _ => t.reach ≤ b)
    (power steps : Nat) {levels n : Nat} {left : Tree} (hleft : left.reach ≤ n + 1)
    (hbn : b ≤ n) (s : ParseState) :
    After (operationsFrom below power steps levels left) s fun t _ =>
      t.reach ≤ n + 1 + 2 * levels := by
  -- on the tokens left, over all that `left` may reach: each operator counted adds two to it
  induction steps generalizing levels n left s with
  | zero => exact after_pure (hleft.trans (Nat.le_add_right _ _))
  | succ steps ih =>
    refine after_get ?_
    split
    · refine after_at? ?_
      split
      · rename_i hdot
        refine after_bind ((after_operation (hbelow levels) hleft hbn s).imp ?_)
        exact fun t s' ht => ih (ht.2 (beq_iff_eq.1 hdot)) hbn s'
      · cases levels with
        | zero => exact after_failHere
        | succ levels =>
          refine after_bind ((after_operation (hbelow levels) hleft hbn s).imp ?_)
          refine fun t s' ht => (ih (n := n + 2) ht.1 (by omega) s').imp ?_
          exact fun t _ ht => by omega
    · exact after_pure (hleft.trans (Nat.le_add_right _ _))

/-- **Levels bound the height of a tree by their square only.** -/
theorem after_below (n levels power : Nat) (s : ParseState) :
    After (below n levels power) s fun t _ => t.reach ≤ n * (n + 1) + 1 := by
  induction n generalizing levels power s with
  | zero => exact after_failHere
  | succ n ih =>
    have hsquare : (n + 1) * (n + 1 + 1) = n * (n + 1) + 2 * n + 2 := by ring
    rw [below]
    split
    · exact (ih levels power s).imp fun t _ ht => by omega
    · -- the operand has one level less, and there are as many operators as levels left
      refine after_bind ((after_operand (Nat.le_add_left _ _) (ih n) s).imp ?_)
      intro first s' hfirst
      refine after_step fun left s' => ?_
      refine (after_operationsFrom (n := n * (n + 1) + 2) ih power left hfirst ?_ s').imp ?_
      · exact Nat.le_succ _
      · exact fun t _ ht => by omega

end Parser

/-- What the parser accepts has at most as many levels as the square of those granted. -/
theorem height_le_of_compileTree {source : String} {t : Tree} (h : compileTree source = .ok t) :
    t.height ≤ maxNesting * (maxNesting + 1) + 1 := by
  refine Tree.height_le_of_reach_le (Parser.of_compileTree
    (P := fun t => t.reach ≤ maxNesting * (maxNesting + 1) + 1) (fun s => ?_) h)
  refine Parser.after_bind ((Parser.after_below maxNesting _ 0 s).imp fun t s' ht => ?_)
  refine Parser.after_get ?_
  split
  · exact Parser.after_bind Parser.after_failHere
  · exact Parser.after_pure ht

/-! ## Trees within the levels of an evaluation -/

/-- What is compared of a tree without functions, which is not nested too deep. -/
def Comparison.shallow : Comparison where
  bodies := fun _ => False
  deep := False

/-- An evaluator with as many levels as a tree is high agrees with itself on the tree, and
does not run out of levels. -/
theorem agree_eval_of_height_le (input : Json) (now : String) (clearing : Bool) {depth : Nat}
    {t : Tree} (hl : t.lambdaFree = true) (hh : t.height ≤ depth) :
    Evaluator.Agree .shallow (eval ⟨input, now, clearing⟩ depth)
      (eval ⟨input, now, clearing⟩ depth) t := by
  induction depth generalizing t with
  | zero => exact absurd t.height_pos (Nat.not_lt.2 hh)
  | succ depth ih =>
    have hparts := Tree.height_le_succ_iff.1 hh
    refine ⟨fun context hs => ?_, ?_⟩
    · exact matches_evalNode (fun _ (hbody : False) => hbody.elim) hs context
        fun u hu => ih (Tree.lambdaFree_of_mem_parts hl hu) (hparts u hu)
    · rintro params body rfl
      rw [Tree.not_lambdaFree_lambda] at hl
      cases hl

/-- **A tree without functions is evaluated if there are as many levels as it is high.** -/
theorem evaluate_ne_nestedTooDeep {t : Tree} (hl : t.lambdaFree = true) {depth : Nat}
    (hh : t.height ≤ depth) (setting : Setting) :
    evaluate setting depth t ≠ .error .nestedTooDeep := by
  obtain ⟨input, now, clearing⟩ := setting
  have hagree := agree_eval_of_height_le input now clearing hl hh
  have houtcome := hagree.value (some input) List.Forall₂.nil _ _ (stands_new _)
  unfold evaluate
  intro herror
  generalize (eval ⟨input, now, clearing⟩ depth t (some input) [0]).run #[{}] = o
    at houtcome herror
  cases houtcome with
  | ok => cases herror
  | @error e he =>
    cases herror
    exact he rfl
  | excused h => exact h

/-! ## Trees beyond them -/

/-- How many levels there are down the left operands. -/
def Tree.spine : Tree → Nat
  | .binary _ l _ => l.spine + 1
  | _ => 1

/-- The left operands are evaluated first, so their levels are used up first. -/
theorem eval_of_spine (setting : Setting) {depth : Nat} {t : Tree} (h : depth < t.spine)
    (context : Value) (scope : Scope) (frames : Frames) :
    (eval setting depth t context scope).run frames = .error .nestedTooDeep := by
  induction depth generalizing t with
  | zero => rfl
  | succ depth ih =>
    cases t with
    | binary op l r =>
      have hl := ih (Nat.lt_of_succ_lt_succ h)
      exact run_bind_of_error hl
    | literal | context | root | field | var | builtin | path | filter | negate | condition
    | array | object | block | bind | lambda | call =>
      exact absurd h (Nat.not_lt.2 (Nat.le_add_left _ _))

/-- The text of an expression to which one is added so many times. -/
def plusOnes (first : List Char) (times : Nat) : List Char :=
  first ++ (List.replicate times ['+', '1']).flatten

/-- The text of a sum of ones: twice, a sum in parentheses is the left operand of others. -/
def sumOfOnes : List Char :=
  plusOnes ('(' :: plusOnes ('(' :: plusOnes ['1'] 37 ++ [')']) 61 ++ [')']) 62

/-- The sum is accepted, and its tree has more levels than there are for an evaluation. -/
theorem compileTree_sumOfOnes : ∃ t, compileTree (String.ofList sumOfOnes) = .ok t
    ∧ t.lambdaFree = true ∧ t.spine = maxDepth + 1 ∧ t.height = maxDepth + 1 := by
  have htokens : tokens (String.ofList sumOfOnes) =
      Lexer.tokensFrom sumOfOnes.length 0 sumOfOnes := by
    rw [tokens, String.toList_ofList]
  have hsummary : (compileTree (String.ofList sumOfOnes)).toOption.map
      (fun t => (t.lambdaFree, t.spine, t.height)) = some (true, maxDepth + 1, maxDepth + 1) := by
    rw [compileTree, parse, htokens]
    decide +kernel
  cases h : compileTree (String.ofList sumOfOnes) with
  | error f =>
    rw [h] at hsummary
    cases hsummary
  | ok t =>
    rw [h] at hsummary
    simp only [Except.toOption, Option.map_some, Option.some.injEq, Prod.mk.injEq] at hsummary
    exact ⟨t, rfl, hsummary⟩

/-- There is a text without functions that compiles, and then fails on every document for
being nested too deep. -/
theorem accepted_but_nested_too_deep : ∃ t, compileTree (String.ofList sumOfOnes) = .ok t
    ∧ t.lambdaFree = true ∧ ∀ now input, result now t input = .error .nestedTooDeep := by
  obtain ⟨t, ht, hl, hspine, -⟩ := compileTree_sumOfOnes
  refine ⟨t, ht, hl, fun now input => ?_⟩
  have hlt : maxDepth < t.spine := hspine ▸ Nat.lt_succ_self _
  rw [result, evaluate, eval_of_spine _ hlt]
  rfl

/-- **Which levels an accepted expression needs.**  The tree of a text that compiles is at
most as high as the square of the levels granted, and one level more for each of them and
one in all; if there are no functions in it, it never fails for being nested too deep where
an evaluation has as many levels as the tree is high. -/
theorem accepted_is_evaluated_in_its_levels {source : String} {t : Tree}
    (h : compileTree source = .ok t) (hl : t.lambdaFree = true) :
    t.height ≤ maxNesting * (maxNesting + 1) + 1
      ∧ (∀ setting depth, t.height ≤ depth → evaluate setting depth t ≠ .error .nestedTooDeep)
      ∧ (t.height ≤ maxDepth → ∀ now input, result now t input ≠ .error .nestedTooDeep) := by
  refine ⟨height_le_of_compileTree h, ?_, ?_⟩
  · exact fun setting depth hh => evaluate_ne_nestedTooDeep hl hh setting
  · intro hh now input hresult
    have hne := evaluate_ne_nestedTooDeep hl hh ⟨input, now, true⟩
    rw [result] at hresult
    cases hv : evaluate ⟨input, now, true⟩ maxDepth t with
    | error e =>
      rw [hv] at hresult
      cases hresult
      exact hne hv
    | ok v =>
      rw [hv] at hresult
      cases hresult

/-- The sum of ones is evaluated with one level more than there are. -/
theorem sumOfOnes_is_evaluated_in_its_levels :
    ∃ t, compileTree (String.ofList sumOfOnes) = .ok t
      ∧ ∀ setting, evaluate setting (maxDepth + 1) t ≠ .error .nestedTooDeep := by
  obtain ⟨t, ht, hl, -, hheight⟩ := compileTree_sumOfOnes
  exact ⟨t, ht, fun setting =>
    (accepted_is_evaluated_in_its_levels ht hl).2.1 setting _ hheight.le⟩

end Reshape.Expression
