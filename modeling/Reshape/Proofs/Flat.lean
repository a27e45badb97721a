/-
# Functions on values do not nest

Operators and built-in functions work on values that are already there.  Whatever they fail
for, it is not that an evaluation is nested too deep (`Flat`): that is for the evaluator
alone to say.  There is one lemma for each function, and combinations of flat computations
are flat.
-/
import Mathlib.Tactic
import Reshape.Expression.Library

namespace Reshape.Expression

/-! ## Flat computations -/

/-- The computation does not fail for being nested too deep. -/
def Flat {α : Type} (x : Except EvalError α) : Prop := x ≠ .error .nestedTooDeep

namespace Flat

variable {α β : Type}

/-- A computation that yields something has not failed. -/
theorem ok (v : α) : Flat (.ok v : Except EvalError α) := nofun

/-- One that fails for another reason is flat as well. -/
theorem error {e : EvalError} (h : e ≠ .nestedTooDeep) : Flat (.error e : Except EvalError α) :=
  fun he => h (Except.error.inj he)

/-- Flat computations one after the other are flat. -/
theorem bind {x : Except EvalError α} {f : α → Except EvalError β} (hx : Flat x)
    (hf : ∀ v, Flat (f v)) : Flat (x >>= f) := by
  cases x with
  | error e => exact error fun he => hx (congrArg _ he)
  | ok v => exact hf v

/-- What is made of the result does not matter. -/
theorem map {x : Except EvalError α} (hx : Flat x) (f : α → β) : Flat (x.map f) := by
  cases x with
  | error e => exact error fun he => hx (congrArg _ he)
  | ok v => exact ok _

/-- A row of flat computations is flat. -/
theorem mapM {f : α → Except EvalError β} (hf : ∀ v, Flat (f v)) (vs : List α) :
    Flat (vs.mapM f) := by
  induction vs with
  | nil => exact ok _
  | cons v vs ih =>
    rw [List.mapM_cons]
    exact (hf v).bind fun _ => ih.bind fun _ => ok _

/-- So is a row in which each goes on from the one before. -/
theorem foldlM {f : β → α → Except EvalError β} (hf : ∀ b v, Flat (f b v)) (b : β)
    (vs : List α) : Flat (vs.foldlM f b) := by
  induction vs generalizing b with
  | nil => exact ok _
  | cons v vs ih =>
    rw [List.foldlM_cons]
    exact (hf b v).bind fun b => ih b

end Flat

/-! ## Operators -/

/-- A result that is not finite has a fault of its own. -/
theorem flat_numberResult (x : Binary64) : Flat (numberResult x) := by
  unfold numberResult
  split
  · exact .ok _
  · exact .error nofun

/-- Values that cannot be compared have one, too. -/
theorem flat_order (a b : Json) : Flat (order a b) := by
  unfold order
  split
  · split
    · exact .ok _
    · exact .error nofun
  · exact .ok _
  · exact .error nofun

/-- So have operands that are no numbers. -/
theorem flat_arithmetic (op : Operator) (a b : Json) : Flat (arithmetic op a b) := by
  unfold arithmetic
  split
  · exact flat_numberResult _
  · exact .error nofun

/-- **No operator fails for being nested too deep**: comparisons and arithmetic are all that can
fail. -/
theorem Operator.flat_apply (op : Operator) (l r : Value) : Flat (op.apply l r) := by
  unfold Operator.apply
  split
  · exact .ok _
  · exact .ok _
  · exact .ok _
  all_goals split
  any_goals exact .ok _
  any_goals exact (flat_order _ _).map _
  any_goals exact (flat_arithmetic _ _ _).map _

/-- Negation fails for what is no number only. -/
theorem flat_negated (v : Value) : Flat (negated v) := by
  unfold negated
  split
  · exact .ok _
  · exact (flat_numberResult _).map _
  · exact .error nofun

/-! ## Built-in functions -/

namespace Library

variable {α : Type}

/-- An argument of the wrong kind is a fault of its own. -/
theorem flat_mismatch (f : Builtin) (what : String) :
    Flat (mismatch f what : Except EvalError α) :=
  .error nofun

theorem flat_stringArg (f : Builtin) (v : Json) : Flat (stringArg f v) := by
  cases v with
  | string s => exact .ok _
  | null | bool | number | array | object => exact flat_mismatch f _

theorem flat_requiredString (f : Builtin) (v : Value) : Flat (requiredString f v) := by
  cases v with
  | none => exact flat_mismatch f _
  | some v => exact flat_stringArg f v

theorem flat_integerArg (f : Builtin) (v : Value) : Flat (integerArg f v) := by
  unfold integerArg
  split
  · exact .ok _
  · exact flat_mismatch f _

/-- An argument that may be missing is read like one that may not. -/
theorem flat_integerArg? (f : Builtin) (v : Value) : Flat (integerArg? f v) := by
  cases v with
  | none => exact .ok _
  | some v => exact (flat_integerArg f (some v)).map _

/-- A limit fails if it is no number or below zero, and for nothing else. -/
theorem flat_limitArg? (f : Builtin) (v : Value) : Flat (limitArg? f v) := by
  unfold limitArg?
  split
  · exact .ok _
  · split
    · split
      · exact flat_mismatch f _
      · exact .ok _
    · exact flat_mismatch f _

theorem flat_numberArg (f : Builtin) (v : Json) : Flat (numberArg f v) := by
  unfold numberArg
  split
  · exact .ok _
  · exact flat_mismatch f _

theorem flat_numbersArg (f : Builtin) (v : Json) : Flat (numbersArg f v) := by
  refine .mapM (fun item => ?_) _
  split
  · exact .ok _
  · exact flat_mismatch f _

/-- A text that spells no number has its own fault. -/
theorem flat_toNumber (f : Builtin) (v : Json) : Flat (toNumber f v) := by
  unfold toNumber
  split
  · exact .ok _
  · exact .ok _
  · split
    · exact flat_numberResult _
    · exact .error nofun
  · exact flat_mismatch f _

/-- To join fails for items that are no texts. -/
theorem flat_joined (f : Builtin) (sep : List Char) (v : Json) : Flat (joined f sep v) := by
  refine Flat.bind (.mapM (fun item => ?_) _) fun _ => .ok _
  split
  · exact .ok _
  · exact flat_mismatch f _

/-- To replace fails for its arguments, or for an empty pattern. -/
theorem flat_replaced (f : Builtin) (text : Json) (pattern replacement limit : Value) :
    Flat (replaced f text pattern replacement limit) := by
  refine (flat_stringArg f text).bind fun s => (flat_requiredString f pattern).bind fun p => ?_
  simp only
  split
  · exact .error (e := .emptyPattern) nofun
  · refine (flat_requiredString f replacement).bind fun r => (flat_limitArg? f limit).bind ?_
    rintro (_ | n) <;> exact .ok _

/-- The largest, the smallest and the mean fail as numbers that are not finite do. -/
theorem flat_summary (f : Builtin) (xs : List Binary64) : Flat (summary f xs) := by
  unfold summary
  split
  · exact .ok _
  · exact (flat_numberResult _).map _

/-- To merge fails for items that are no objects. -/
theorem flat_merged (f : Builtin) (v : Json) : Flat (merged f v) := by
  refine Flat.bind (.foldlM (fun acc item => ?_) _ _) fun _ => .ok _
  split
  · exact .ok _
  · exact flat_mismatch f _

/-- A function that passes on what is undefined is flat if it is flat on what is defined. -/
theorem flat_onDefined (v : Value) {g : Json → Except EvalError Json} (hg : ∀ w, Flat (g w)) :
    Flat (onDefined v g) := by
  cases v with
  | none => exact .ok _
  | some w => exact (hg w).map _

/-- **No built-in function fails for being nested too deep.** -/
theorem flat_apply (f : Builtin) (now : String) (args : List Value) :
    Flat (apply f now args) := by
  -- what is left of each case are the checks of its arguments, in order
  cases f with
  | string | boolean | not | reverse => exact flat_onDefined _ fun _ => .ok _
  | «exists» | count | keys | now => exact .ok _
  | number => exact flat_onDefined _ (flat_toNumber _)
  | sum => exact flat_onDefined _ fun v => (flat_numbersArg _ v).bind fun _ => flat_numberResult _
  | max | min | average =>
    unfold apply
    simp only
    split
    · exact .ok _
    · exact (flat_numbersArg _ _).bind fun _ => flat_summary _ _
  | length | uppercase | lowercase | trim =>
    exact flat_onDefined _ fun v => (flat_stringArg _ v).bind fun _ => .ok _
  | substring =>
    exact flat_onDefined _ fun v => (flat_stringArg _ v).bind fun _ =>
      (flat_integerArg _ _).bind fun _ => (flat_integerArg? _ _).bind fun _ => .ok _
  | join =>
    refine flat_onDefined _ fun v => ?_
    simp only
    split
    · exact (Flat.ok _).bind fun _ => flat_joined _ _ v
    · exact (Flat.ok _).bind fun _ => flat_joined _ _ v
    · exact (flat_mismatch _ _).bind fun _ => flat_joined _ _ v
  | round =>
    exact flat_onDefined _ fun v => (flat_numberArg _ v).bind fun _ =>
      (flat_integerArg? _ _).bind fun _ => flat_numberResult _
  | abs | floor | ceil =>
    exact flat_onDefined _ fun v => (flat_numberArg _ v).bind fun _ => flat_numberResult _
  | contains =>
    exact flat_onDefined _ fun v => (flat_stringArg _ v).bind fun _ =>
      (flat_requiredString _ _).bind fun _ => .ok _
  | split =>
    refine flat_onDefined _ fun v => (flat_stringArg _ v).bind fun _ =>
      (flat_requiredString _ _).bind fun _ => (flat_limitArg? _ _).bind ?_
    rintro (_ | n) <;> exact .ok _
  | replace => exact flat_onDefined _ fun v => flat_replaced _ v _ _ _
  | merge => exact flat_onDefined _ (flat_merged _)
  | append =>
    unfold apply
    simp only
    split <;> exact .ok _
  | distinct =>
    refine flat_onDefined _ fun v => ?_
    split <;> exact .ok _
  -- what is given a function works on no values, and has a fault of its own
  | map | filter | reduce => exact .error nofun

end Library

end Reshape.Expression
