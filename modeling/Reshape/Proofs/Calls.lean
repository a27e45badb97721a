/-
# Calls of built-in functions

Which function a tree stands for depends on the frames, and asking for it leaves them as they are
(`run_callable?`).  A tree with a defined value stands for none, so that as an argument it is
evaluated, before the arguments behind it (`run_arguments_cons`), and a built-in function that takes
no functions is applied to the values (`run_call_builtin`).
-/
import Reshape.Expression.Evaluation

namespace Reshape.Expression

variable {setting : Setting} {depth : Nat} {tree : Tree} {args : List Tree} {context : Value}
  {scope : Scope} {s t : Frames}

/-- The function that a tree stands for in some frames. -/
def Eval.functionOf? (frames : Frames) (scope : Scope) : Tree → Option Callable
  | .builtin f => some (.builtin f)
  | .lambda params body => some (.lambda params body scope)
  | .var name =>
    match lookup? frames scope name with
    | some (.function c) => some c
    | _ => none
  | _ => none

/-- Looking for the function that a tree stands for leaves the frames as they are. -/
theorem run_callable? (t : Tree) (scope : Scope) (s : Frames) :
    (Eval.callable? t scope : Eval (Option Callable)).run s =
      .ok (Eval.functionOf? s scope t, s) := by
  cases t with
  | var name =>
    show (match Eval.lookup? s scope name with
      | some (.function c) => (pure (some c) : Eval (Option Callable))
      | _ => pure none).run s = _
    rw [Eval.functionOf?]
    rcases Eval.lookup? s scope name with _ | ⟨_ | _⟩ <;> rfl
  | literal | context | root | field | builtin | path | filter | binary | negate | condition
  | array | object | block | bind | lambda | call => rfl

/-- What has a defined value stands for no function. -/
theorem functionOf?_of_run_eval {v : Json}
    (h : (eval setting depth tree context scope).run s = .ok (some v, t)) :
    Eval.functionOf? s scope tree = none := by
  cases depth with
  | zero => cases h
  | succ depth =>
    cases tree with
    | builtin f => cases h
    | lambda params body => cases h
    | var name =>
      rw [Eval.functionOf?]
      rcases hlookup : Eval.lookup? s scope name with _ | ⟨v | c⟩
      · rfl
      · rfl
      · have hnone : (eval setting (depth + 1) (.var name) context scope).run s = .ok (none, s) := by
          simp only [eval, evalNode, StateT.run_bind, StateT.run_get, pure_bind, hlookup,
            StateT.run_pure]
          rfl
        rw [hnone] at h
        cases h
    | literal | context | root | field | path | filter | binary | negate | condition | array
    | object | block | bind | call => rfl

/-- An argument with a defined value is evaluated before the others. -/
theorem run_arguments_cons {v : Json} (args : List Tree)
    (h : (eval setting depth tree context scope).run s = .ok (some v, t)) :
    (Eval.arguments (eval setting depth) context scope (tree :: args)).run s =
      ((.value (some v) :: ·) <$>
        Eval.arguments (eval setting depth) context scope args).run t := by
  simp only [Eval.arguments, StateT.run_bind, run_callable?, functionOf?_of_run_eval h]
  show (do
    let p ← (Binding.value <$> eval setting depth tree context scope).run s
    ((do
      let bs ← Eval.arguments (eval setting depth) context scope args
      pure (p.1 :: bs)) : Eval (List Binding)).run p.2) = _
  rw [StateT.run_map, h, map_eq_pure_bind]
  rfl

/-- An argument that stands for a function is that function. -/
theorem run_arguments_function {c : Callable} (args : List Tree)
    (h : Eval.functionOf? s scope tree = some c) :
    (Eval.arguments (eval setting depth) context scope (tree :: args)).run s =
      ((.function c :: ·) <$> Eval.arguments (eval setting depth) context scope args).run s := by
  simp only [Eval.arguments, StateT.run_bind, run_callable?, h]
  rw [map_eq_pure_bind]
  rfl

/-- The value of a call of a built-in function is its value on those of the arguments. -/
theorem run_call_builtin {f : Builtin} (hf : f.isHigherOrder = false) (place : Nat)
    {bs : List Binding}
    (h : (Eval.arguments (eval setting depth) context scope args).run s = .ok (bs, t)) :
    (eval setting (depth + 1) (.call (.builtin f) args place) context scope).run s =
      (liftM (Library.apply f setting.now (bs.map Binding.asValue)) : Eval Value).run t := by
  have hcall : Eval.call setting (eval setting depth) context scope (.builtin f) args =
      Eval.arguments (eval setting depth) context scope args >>=
        Eval.invoke setting (eval setting depth) context (.builtin f) := by
    unfold Eval.call
    simp only [hf]
    rfl
  rw [eval, evalNode, hcall, StateT.run_bind, h]
  rfl

end Reshape.Expression
