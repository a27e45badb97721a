/-
# The limit on evaluation only cuts off

An evaluation has a number of levels, and fails if it needs more.  More levels never change an
answer (`agree_eval_of_le`): an evaluation with fewer levels is followed beside one with more,
and they part only where the first one has no level left.

The levels can also be counted.  A metered evaluation keeps the number of levels it is in,
raises it before each tree and sets it back behind it, whether or not that fails, and notes
the errors that trees end with (`Meter`).  It is the evaluation with the levels that are left
(`accounted_meteredEval`): between two trees the counter is where it was, and no error but the
last one is ever noted, since no construct goes on after one.
-/
import Mathlib.Tactic
import Reshape.Proofs.Congruence
import Reshape.Proofs.Lifetime

namespace Reshape.Expression

/-! ## Fewer levels and more -/

/-- What is compared where only the first of two evaluations runs out of levels. -/
def Comparison.cutOff : Comparison where
  excused := True

/-- An evaluator agrees with one that has more levels, as far as it goes. -/
theorem agree_eval_of_le (input : Json) (now : String) (clearing : Bool) {least limit : Nat}
    (h : least ≤ limit) (t : Tree) :
    Evaluator.Agree .cutOff (eval ⟨input, now, clearing⟩ least)
      (eval ⟨input, now, clearing⟩ limit) t := by
  induction least generalizing limit t with
  | zero => exact ⟨fun _ _ _ _ _ => .excused trivial, fun _ => trivial⟩
  | succ least ih =>
    obtain ⟨limit, rfl⟩ : ∃ n, limit = n + 1 := ⟨limit - 1, by omega⟩
    have ih := fun u => ih (Nat.le_of_succ_le_succ h) u
    exact ⟨fun context hs => matches_evalNode (fun u _ => ih u) hs context fun u _ => ih u,
      fun _ => trivial⟩

/-- **More levels do not change an answer.** -/
theorem evaluate_of_le (setting : Setting) {least limit : Nat} (hle : least ≤ limit) {t : Tree}
    (h : evaluate setting least t ≠ .error .nestedTooDeep) :
    evaluate setting limit t = evaluate setting least t := by
  obtain ⟨input, now, clearing⟩ := setting
  have hagree := agree_eval_of_le input now clearing hle t
  have houtcome := hagree.value (some input) List.Forall₂.nil _ _ (stands_new _)
  unfold evaluate at h ⊢
  generalize (eval ⟨input, now, clearing⟩ least t (some input) [0]).run #[{}] = o at houtcome h
  generalize (eval ⟨input, now, clearing⟩ limit t (some input) [0]).run #[{}] = o' at houtcome
  cases houtcome with
  | ok hxy => exact congrArg Except.ok hxy.symm
  | error => rfl
  | excused => exact absurd rfl h

/-! ## Metered evaluations -/

/-- The account of an evaluation: the levels it is in, and the errors that trees have ended
with, the latest first. -/
structure Meter where
  depth : Nat
  raised : List EvalError

/-- A computation on frames that may fail and that keeps an account. -/
abbrev Metered := StateT Frames (ExceptT EvalError (StateM Meter))

namespace Metered

/-- The outcome of a computation and the account behind it. -/
def outcome {α : Type} (c : Metered α) (frames : Frames) (meter : Meter) :
    Except EvalError (α × Frames) × Meter :=
  ((c.run frames).run.run meter).run

/-- Evaluates a tree one level deeper, unless that is too deep.  The levels are set back
behind it, whether or not it failed. -/
def nested (limit : Nat) (body : Metered Value) : Metered Value := fun frames meter =>
  let depth := meter.depth + 1
  if limit < depth then
    (.error .nestedTooDeep, ⟨meter.depth, .nestedTooDeep :: meter.raised⟩)
  else
    match outcome body frames ⟨depth, meter.raised⟩ with
    | (.ok x, after) => (.ok x, ⟨depth - 1, after.raised⟩)
    | (.error e, after) => (.error e, ⟨depth - 1, e :: after.raised⟩)

end Metered

/-- The value of a tree where levels are counted up to a limit.  There are `steps` levels of
trees inside, enough if the count reaches the limit in them. -/
def meteredEval (setting : Setting) (limit : Nat) : (steps : Nat) → EvaluatorIn Metered
  | 0, _, _, _ => Metered.nested limit (throw .nestedTooDeep)
  | steps + 1, t, context, scope =>
    Metered.nested limit (evalNode setting (meteredEval setting limit steps) t context scope)

/-! ## The account -/

variable {α β γ δ : Type} {least : Nat} {meter : Meter} {R : α → β → Prop} {S : γ → δ → Prop}

/-- The outcome of a metered computation is that of another one.  If they come to results, these
are related and the account is as before; if there is an error, the levels are, and the errors
noted since are that one, noted at least so often. -/
inductive Accounted (least : Nat) (meter : Meter) (R : α → β → Prop) :
    Except EvalError (α × Frames) × Meter → Except EvalError (β × Frames) → Prop
  | ok {x : α} {y : β} (hxy : R x y) (frames : Frames) :
      Accounted least meter R (.ok (x, frames), meter) (.ok (y, frames))
  | error (e : EvalError) {n : Nat} (hn : least ≤ n) :
      Accounted least meter R (.error e, ⟨meter.depth, List.replicate n e ++ meter.raised⟩)
        (.error e)

namespace Accounted

/-- What is accounted for in steps is accounted for as a whole. -/
theorem bind {c : Metered α} {c' : Eval β} {f : α → Metered γ} {f' : β → Eval δ}
    {frames : Frames}
    (hc : Accounted least meter R (Metered.outcome c frames meter) (c'.run frames))
    (hf : ∀ x y frames, R x y → Accounted least meter S (Metered.outcome (f x) frames meter)
      ((f' y).run frames)) :
    Accounted least meter S (Metered.outcome (c >>= f) frames meter)
      ((c' >>= f').run frames) := by
  have houtcome : Metered.outcome (c >>= f) frames meter =
      match Metered.outcome c frames meter with
      | (.ok x, after) => Metered.outcome (f x.1) x.2 after
      | (.error e, after) => (.error e, after) := by
    simp only [Metered.outcome, StateT.run_bind, ExceptT.run_bind, StateT.run_bind, Id.run_bind]
    rcases ((c.run frames).run.run meter).run with ⟨_ | x, after⟩ <;> rfl
  rw [houtcome, StateT.run_bind]
  generalize Metered.outcome c frames meter = o at hc
  generalize c'.run frames = o' at hc
  cases hc with
  | ok hxy frames => exact hf _ _ frames hxy
  | error e hn => exact .error e hn

theorem mono {least' : Nat} (h : least' ≤ least) {o : Except EvalError (α × Frames) × Meter}
    {o' : Except EvalError (β × Frames)} (ho : Accounted least meter R o o') :
    Accounted least' meter R o o' := by
  cases ho with
  | ok hxy frames => exact .ok hxy frames
  | error e hn => exact .error e (Nat.le_trans h hn)

/-- A tree that is evaluated one level deeper notes an error if it ends with one. -/
theorem nested {limit : Nat} {body : Metered Value} {body' : Eval Value} {frames : Frames}
    (hlimit : meter.depth < limit)
    (h : Accounted 0 ⟨meter.depth + 1, meter.raised⟩ Eq
      (Metered.outcome body frames ⟨meter.depth + 1, meter.raised⟩) (body'.run frames)) :
    Accounted 1 meter Eq (Metered.outcome (Metered.nested limit body) frames meter)
      (body'.run frames) := by
  have hnested : Metered.outcome (Metered.nested limit body) frames meter =
      match Metered.outcome body frames ⟨meter.depth + 1, meter.raised⟩ with
      | (.ok x, after) => (.ok x, ⟨meter.depth, after.raised⟩)
      | (.error e, after) => (.error e, ⟨meter.depth, e :: after.raised⟩) :=
    if_neg (Nat.not_lt.2 hlimit)
  rw [hnested]
  generalize Metered.outcome body frames ⟨meter.depth + 1, meter.raised⟩ = o at h
  generalize body'.run frames = o' at h
  cases h with
  | ok hxy frames => exact .ok hxy frames
  | @error e n _ => exact .error e (n := n + 1) (Nat.le_add_left 1 n)

/-- Where no level is left nothing is evaluated. -/
theorem nested_too_deep {limit : Nat} {body : Metered Value} {frames : Frames}
    (hlimit : limit ≤ meter.depth) :
    Accounted 1 meter Eq (Metered.outcome (Metered.nested limit body) frames meter)
      (.error .nestedTooDeep) := by
  have hnested : Metered.outcome (Metered.nested limit body) frames meter =
      (.error .nestedTooDeep, ⟨meter.depth, .nestedTooDeep :: meter.raised⟩) :=
    if_pos (Nat.lt_succ_of_le hlimit)
  rw [hnested]
  exact .error (n := 1) _ (Nat.le_refl 1)

/-- The relation between computations that keep the account at a level and others. -/
def congruence (depth : Nat) : Congruence Metered Eval where
  World := Unit
  sees _ := Eq
  bodies := Eq
  scopes _ _ := Eq
  frames _ := Eq
  clears := Eq
  rel _ R c c' := ∀ frames meter, meter.depth = depth →
    Accounted 0 meter R (Metered.outcome c frames meter) (c'.run frames)
  sees_of_scopes h := h
  lookup := by
    rintro _ s _ a _ rfl rfl name
    exact Eval.lookup?_alike_eq a s name
  pure hxy frames _ _ := .ok hxy frames
  bind hc hf := by
    intro frames meter hdepth
    exact (hc frames meter hdepth).bind fun x y frames hxy => hf x y hxy frames meter hdepth
  throw _ _ _ _ := .error _ (Nat.le_refl 0)
  lift {_ _ x} _ frames _ _ := by
    cases x with
    | ok v => exact .ok rfl frames
    | error e => exact .error e (Nat.le_refl 0)
  get frames _ _ := .ok rfl frames
  note {_ s _ v _} name hs hv frames _ _ := by
    obtain rfl := hs
    obtain rfl := Binding.alike_eq_iff.1 hv
    cases s with
    | nil => exact .ok rfl frames
    | cons i s => exact .ok rfl _
  inFrame {_ s _ bs _ clearing _ body body'} hclears hs hbs hbody := by
    intro frames meter hdepth
    obtain rfl := hclears
    obtain rfl := hs
    obtain rfl := Binding.forall₂_alike_eq hbs
    have hinner := hbody () frames.size frames.size rfl (frames.push { bindings := bs }) meter
      hdepth
    show Accounted 0 meter Eq
      (Metered.outcome (do
        let v ← body (frames.size :: s)
        Eval.closeFrame clearing (frames.size :: s)
        return v) (frames.push { bindings := bs }) meter)
      (StateT.run (do
        let v ← body' (frames.size :: s)
        Eval.closeFrame clearing (frames.size :: s)
        return v) (frames.push { bindings := bs }))
    exact hinner.bind fun v _ frames hv => .ok hv _

end Accounted

/-- **A metered evaluation is that with the levels left**, and keeps its account. -/
theorem accounted_meteredEval (setting : Setting) {limit steps : Nat} (t : Tree)
    (context : Value) (scope : Scope) (frames : Frames) (meter : Meter)
    (hsteps : limit ≤ meter.depth + steps) :
    Accounted 1 meter Eq
      (Metered.outcome (meteredEval setting limit steps t context scope) frames meter)
      ((eval setting (limit - meter.depth) t context scope).run frames) := by
  induction steps generalizing t context scope frames meter with
  | zero =>
    have hlimit : limit ≤ meter.depth := hsteps
    rw [Nat.sub_eq_zero_of_le hlimit]
    exact .nested_too_deep hlimit
  | succ steps ih =>
    rcases Nat.lt_or_ge meter.depth limit with hlimit | hlimit
    · -- the trees inside are evaluated one level deeper
      obtain ⟨left, hleft⟩ : ∃ left, limit - meter.depth = left + 1 :=
        ⟨limit - meter.depth - 1, by omega⟩
      let k := Accounted.congruence (meter.depth + 1)
      have hinner : ∀ {s s' : Scope}, s = s' → ∀ u, k.Relates () s s'
          (meteredEval setting limit steps) (eval setting left) u u := by
        rintro s _ rfl u context frames meter' hdepth
        have hu := ih u context s frames meter' (by omega)
        rw [hdepth, show limit - (meter.depth + 1) = left by omega] at hu
        exact hu.mono (Nat.zero_le 1)
      rw [hleft]
      have hscopes : k.scopes true () scope scope := rfl
      refine .nested hlimit ?_
      exact k.rel_evalNode_same rfl Iff.rfl hinner hscopes (fun _ => rfl)
        (fun u _ => hinner rfl u) context frames _ rfl
    · rw [Nat.sub_eq_zero_of_le hlimit]
      exact .nested_too_deep hlimit

/-- **The limit on evaluation only cuts off.**  If an evaluation with a number of levels does
not fail for want of more, then with any larger number it has the same outcome: the same value,
undefined, or the same error.  If levels are counted up to a limit instead, starting from any
count, every tree has the outcome that it has with the levels left; the count behind it is
the one before it, whether or not it fails; no error was raised inside it if it has a value,
and none but the one it ends with if it fails. -/
theorem limit_only_cuts_off (setting : Setting) {least limit : Nat} (hle : least ≤ limit)
    {t : Tree} (h : evaluate setting least t ≠ .error .nestedTooDeep) :
    evaluate setting limit t = evaluate setting least t
      ∧ ∀ u context scope frames meter r,
        r = Metered.outcome (meteredEval setting limit limit u context scope) frames meter →
          r.1 = (eval setting (limit - meter.depth) u context scope).run frames
            ∧ r.2.depth = meter.depth
            ∧ (∀ x, r.1 = .ok x → r.2.raised = meter.raised)
            ∧ ∀ e, r.1 = .error e →
              ∃ n, r.2.raised = List.replicate (n + 1) e ++ meter.raised := by
  refine ⟨evaluate_of_le setting hle h, ?_⟩
  rintro u context scope frames meter r rfl
  have haccount := accounted_meteredEval setting u context scope frames meter
    (Nat.le_add_left limit meter.depth)
  generalize Metered.outcome (meteredEval setting limit limit u context scope) frames meter = r
    at haccount
  generalize (eval setting (limit - meter.depth) u context scope).run frames = o at haccount
  cases haccount with
  | ok hxy frames =>
    obtain rfl := hxy
    refine ⟨rfl, rfl, fun _ _ => rfl, ?_⟩
    intro e he
    cases he
  | @error e n hn =>
    refine ⟨rfl, rfl, ?_, ?_⟩
    · intro x hx
      cases hx
    · intro e' he
      cases he
      exact ⟨n - 1, by rw [Nat.sub_add_cancel hn]⟩

/-- Three levels are enough to find out that null cannot be negated, so it is found out with
any larger number. -/
theorem negated_null_fails_alike :
    3 ≤ maxDepth
      ∧ evaluate ⟨.null, "", true⟩ 3 (.array [.negate .context]) ≠ .error .nestedTooDeep
      ∧ evaluate ⟨.null, "", true⟩ maxDepth (.array [.negate .context]) =
          evaluate ⟨.null, "", true⟩ 3 (.array [.negate .context]) := by
  have hle : 3 ≤ maxDepth := by decide
  have hfails : evaluate ⟨.null, "", true⟩ 3 (.array [.negate .context]) =
      .error .negatedNonNumber := rfl
  have hne : evaluate ⟨.null, "", true⟩ 3 (.array [.negate .context]) ≠
      .error .nestedTooDeep := by
    rw [hfails]
    simp
  exact ⟨hle, hne, (limit_only_cuts_off _ hle hne).1⟩

end Reshape.Expression
