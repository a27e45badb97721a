/-
# Closed frames are out of reach

Whether frames are emptied when they are closed makes no difference: nothing is ever looked
up in a closed frame, and no function is called in a scope that has one.  To say the latter,
an evaluation is watched (`watchedEval`).  Before and after each tree it checks that no
frame of its scope is closed, and else fails with an alarm.  Every look-up has such a check
of its scope right before it, with nothing closed in between, and so has the body of every
function that is called.

Watched and plain evaluations are followed side by side, with the open frames as a stack:
the frames of a scope are on the stack, so they are open (`check_of_stands`).
-/
import Mathlib.Tactic
import Reshape.Proofs.Runs

namespace Reshape.Expression

/-! ## Watched evaluations -/

/-- Fails with an alarm unless all frames of a scope are open. -/
def Eval.check (alarm : EvalError) (scope : Scope) : Eval Unit := do
  let frames ← get
  if scope.all fun id => (frames[id]?).any fun frame => !frame.closed then pure ()
  else throw alarm

/-- The value of a tree with `depth` levels of evaluation left, where an alarm is raised if
before or after it, or one of the trees inside, a frame of its scope is closed. -/
def watchedEval (alarm : EvalError) (setting : Setting) : (depth : Nat) → Evaluator
  | 0, _, _, scope => do
    Eval.check alarm scope
    throw .nestedTooDeep
  | depth + 1, t, context, scope => do
    Eval.check alarm scope
    let v ← evalNode setting (watchedEval alarm setting depth) t context scope
    Eval.check alarm scope
    return v

/-- The value of an expression on its input document, watched. -/
def watchedEvaluate (alarm : EvalError) (setting : Setting) (depth : Nat) (t : Tree) :
    Except EvalError Value :=
  ((watchedEval alarm setting depth t (some setting.input) [0]).run #[{}]).map Prod.fst

/-- A closed frame raises the alarm. -/
example : (Eval.check .notAFunction [1, 0]).run #[{ closed := true }, {}] =
    .error .notAFunction := rfl

/-! ## No alarm -/

variable {k : Comparison} {w : World} {alarm : EvalError} {s s' : Scope}

/-- In frames that stand, the check of a scope is passed. -/
theorem Eval.check_of_stands {a b : Frames} (h : Stands k a b w) (hs : Scope.Related w s s')
    (alarm : EvalError) : (check alarm s).run a = .ok ((), a) := by
  have hopen : (s.all fun id => (a[id]?).any fun frame => !frame.closed) = true := by
    induction hs with
    | nil => rfl
    | @cons i j s s' hij _ ih =>
      obtain ⟨f, _, hf, -, hfg⟩ := h.frame hij
      rw [List.all_cons, ih, hf, Option.any_some, hfg.open₁]
      rfl
  show (if (s.all fun id => (a[id]?).any fun frame => !frame.closed) = true
    then (pure () : Eval Unit) else throw alarm).run a = _
  rw [hopen]
  rfl

namespace Matches

variable {α β : Type} {R : α → β → Prop} {m : Eval α} {m' : Eval β}

theorem check_first (hs : Scope.Related w s s') (h : Matches k w R m m') :
    Matches k w R (do Eval.check alarm s; m) m' := by
  intro a b hab
  rw [StateT.run_bind, Eval.check_of_stands hab hs alarm]
  exact h a b hab

theorem check_last (hs : Scope.Related w s s') (h : Matches k w R m m') :
    Matches k w R (do let x ← m; Eval.check alarm s; return x) m' := by
  intro a b hab
  have houtcome := h a b hab
  rw [StateT.run_bind]
  generalize m.run a = o at houtcome
  generalize m'.run b = o' at houtcome
  cases houtcome with
  | @ok x y a' b' hxy hab' =>
    show Outcome.Alike k w R ((do Eval.check alarm s; return x : Eval α).run a') _
    rw [StateT.run_bind, Eval.check_of_stands hab' hs alarm]
    exact .ok hxy hab'
  | error he => exact .error he
  | excused h => exact .excused h

end Matches

/-- A watched evaluator agrees with a plain one, whether or not either empties its frames. -/
theorem agree_watchedEval (alarm : EvalError) (input : Json) (now : String)
    (clearing clearing' : Bool) (depth : Nat) (t : Tree) :
    Evaluator.Agree {} (watchedEval alarm ⟨input, now, clearing⟩ depth)
      (eval ⟨input, now, clearing'⟩ depth) t := by
  induction depth generalizing t with
  | zero =>
    refine ⟨fun _ hs => ?_, fun _ => trivial⟩
    exact .check_first hs.enter (.throw fun _ => trivial)
  | succ depth ih =>
    refine ⟨fun context hs => ?_, fun _ => trivial⟩
    exact .check_first hs.enter (.check_last hs.enter
      (matches_evalNode (fun u _ => ih u) hs context fun u _ => ih u))

/-- At the beginning there is one frame, and nothing in it. -/
theorem stands_new (k : Comparison) : Stands k #[{}] #[{}] [(0, 0)] :=
  .cons .nil List.not_mem_nil List.not_mem_nil rfl rfl ⟨rfl, rfl, .nil⟩

theorem watchedEvaluate_eq (alarm : EvalError) (input : Json) (now : String)
    (clearing clearing' : Bool) (depth : Nat) (t : Tree) :
    watchedEvaluate alarm ⟨input, now, clearing⟩ depth t =
      evaluate ⟨input, now, clearing'⟩ depth t := by
  have hagree := agree_watchedEval alarm input now clearing clearing' depth t
  have houtcome := hagree.value (some input) List.Forall₂.nil _ _ (stands_new _)
  unfold watchedEvaluate evaluate
  generalize (watchedEval alarm ⟨input, now, clearing⟩ depth t (some input) [0]).run #[{}] = o
    at houtcome
  generalize (eval ⟨input, now, clearing'⟩ depth t (some input) [0]).run #[{}] = o' at houtcome
  cases houtcome with
  | ok hxy => exact congrArg Except.ok hxy
  | error => rfl
  | excused h => exact h.elim

/-- **Closed frames are out of reach.**  For every tree, document and number of levels, an
evaluation that empties the frames it closes has the same outcome as one that does not, and
neither raises an alarm when it is watched: before and after each tree that is evaluated,
all frames of its scope are open. -/
theorem closed_frames_are_out_of_reach (input : Json) (now : String) (depth : Nat) (t : Tree) :
    evaluate ⟨input, now, true⟩ depth t = evaluate ⟨input, now, false⟩ depth t
      ∧ ∀ (clearing : Bool) (alarm : EvalError),
        watchedEvaluate alarm ⟨input, now, clearing⟩ depth t =
          evaluate ⟨input, now, clearing⟩ depth t := by
  refine ⟨?_, fun clearing alarm => watchedEvaluate_eq alarm input now clearing clearing depth t⟩
  exact (watchedEvaluate_eq .notAFunction input now true true depth t).symm.trans
    (watchedEvaluate_eq .notAFunction input now true false depth t)

end Reshape.Expression
