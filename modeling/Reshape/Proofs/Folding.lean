/-
# Folding an array with a function

The frames that are in sight of a scope stay as they are while a function is called, whatever it
binds: it binds names in a frame of its own.  So a call comes to the same outcome whenever it is
made, and nothing but its arguments tells one call from another.  A computation *keeps to* an
outcome from some frames (`KeepsTo`) if it has this outcome and leaves them as they are, and does so
from all frames that have come of these since.  Such computations are run one after another as their
outcomes are (`KeepsTo.bind`).

Calls in sight keep to their outcomes (`InSight.keepsTo_invoke`), and so do trees whose bindings
are confined (`Supported.keepsTo_eval`).  Folding an array is then folding it with the outcomes of
the calls (`keepsTo_foldItems`).
-/
import Mathlib.Tactic
import Reshape.Proofs.Calls
import Reshape.Proofs.Confinement
import Reshape.Proofs.Metering

namespace Reshape.Expression

variable {α β : Type} {frames frames' frames'' : Frames} {scope : Scope}

/-! ## Computations that keep to an outcome -/

/-- The outcome of a computation, without the frames behind it. -/
def Eval.outcome (c : Eval α) (frames : Frames) : Except EvalError α := (c.run frames).map Prod.fst

/-- All frames that were there before are as they were. -/
abbrev Kept (frames frames' : Frames) : Prop := Spared false [] frames frames'

theorem Spared.kept {s : Scope} (h : Spared false s frames frames') : Kept frames frames' :=
  fun i hi _ => h i hi nofun

/-- The computation comes to the outcome and keeps the frames, from all frames that keep these. -/
def KeepsTo (frames : Frames) (c : Eval α) (o : Except EvalError α) : Prop :=
  ∀ frames', Kept frames frames' → Eval.outcome c frames' = o ∧
    ∀ x frames'', c.run frames' = .ok (x, frames'') → Kept frames frames''

namespace KeepsTo

variable {c : Eval α} {o : Except EvalError α}

theorem outcome_eq (h : KeepsTo frames c o) : Eval.outcome c frames = o :=
  (h frames (.refl _ _ _)).1

theorem pure (x : α) : KeepsTo frames (Pure.pure x) (.ok x) := by
  intro frames' hkept
  refine ⟨rfl, fun y frames'' hrun => ?_⟩
  cases hrun
  exact hkept

/-- One computation after another keeps to the one outcome after the other. -/
theorem bind {f : α → Eval β} {o' : α → Except EvalError β} (h : KeepsTo frames c o)
    (hf : ∀ x, o = .ok x → KeepsTo frames (f x) (o' x)) :
    KeepsTo frames (c >>= f) (o >>= o') := by
  intro frames' hkept
  obtain ⟨hfirst, hkeeps⟩ := h frames' hkept
  unfold Eval.outcome at hfirst ⊢
  rw [StateT.run_bind]
  cases hrun : c.run frames' with
  | error e =>
    rw [hrun] at hfirst
    subst hfirst
    exact ⟨rfl, nofun⟩
  | ok r =>
    rw [hrun] at hfirst
    subst hfirst
    exact hf r.1 rfl r.2 (hkeeps r.1 r.2 hrun)

theorem bind_ok {x : α} {f : α → Eval β} {o' : Except EvalError β} (h : KeepsTo frames c (.ok x))
    (hf : KeepsTo frames (f x) o') : KeepsTo frames (c >>= f) o' := by
  have hbind : KeepsTo frames (c >>= f) (.ok x >>= fun _ => o') := by
    refine h.bind fun y hy => ?_
    cases hy
    exact hf
  exact hbind

theorem map (f : α → β) (h : KeepsTo frames c o) :
    KeepsTo frames (f <$> c) (o >>= fun x => .ok (f x)) := by
  rw [map_eq_pure_bind]
  exact h.bind fun x _ => .pure (f x)

/-- The result of a computation that keeps to it, and the frames behind it. -/
theorem exists_run {x : α} (h : KeepsTo frames c (.ok x)) (hkept : Kept frames frames') :
    ∃ frames'', c.run frames' = .ok (x, frames'') ∧ Kept frames frames'' := by
  obtain ⟨hfirst, hkeeps⟩ := h frames' hkept
  unfold Eval.outcome at hfirst
  cases hrun : c.run frames' with
  | error e =>
    rw [hrun] at hfirst
    cases hfirst
  | ok r =>
    rw [hrun] at hfirst
    cases hfirst
    exact ⟨r.2, rfl, hkeeps r.1 r.2 hrun⟩

end KeepsTo

/-! ## Scopes in sight -/

/-- The frames of the scope are open, and function values in them see only frames that are. -/
def InSight (frames : Frames) (scope : Scope) : Prop :=
  ∃ w : World, Stands {} frames frames w ∧ Scope.Related w scope scope

/-- A tree can be evaluated in the scope: its frames are in sight, and its innermost frame is the
innermost of all that are. -/
def Supported (frames : Frames) (scope : Scope) : Prop :=
  ∃ (i : FrameId) (outer : Scope) (w : World), scope = i :: outer
    ∧ Stands {} frames frames ((i, i) :: w) ∧ Scope.Related ((i, i) :: w) outer outer

theorem Supported.inSight (h : Supported frames scope) : InSight frames scope := by
  obtain ⟨i, outer, w, rfl, hstands, hscope⟩ := h
  exact ⟨_, hstands, hscope.enter⟩

/-- Whether frames stand depends on those of the world alone, which are kept. -/
theorem Stands.kept {w : World} (h : Stands {} frames frames w) (hkept : Kept frames frames') :
    Stands {} frames frames' w := by
  refine h.congr (fun _ _ => rfl) fun j hj => ?_
  exact hkept j (h.lt_size₂ hj) nofun

/-- An evaluator agrees with itself. -/
theorem agree_eval (input : Json) (now : String) (clearing : Bool) (depth : ℕ) (t : Tree) :
    Evaluator.Agree {} (eval ⟨input, now, clearing⟩ depth) (eval ⟨input, now, clearing⟩ depth)
      t := by
  induction depth generalizing t with
  | zero => exact ⟨fun _ _ => .throw fun _ => trivial, fun _ => trivial⟩
  | succ depth ih =>
    exact ⟨fun context hs => matches_evalNode (fun u _ => ih u) hs context fun u _ => ih u,
      fun _ => trivial⟩

/-- Outcomes that are alike are the same but for the frames. -/
theorem Outcome.Alike.map_fst_eq {w : World} {o o' : Except EvalError (α × Frames)}
    (h : Outcome.Alike {} w Eq o o') : o.map Prod.fst = o'.map Prod.fst := by
  cases h with
  | ok hxy => exact congrArg Except.ok hxy
  | error => rfl
  | excused h => exact h.elim

/-- Computations that match themselves and keep the frames keep to their outcome. -/
theorem Matches.keepsTo {w : World} {c : Eval α} (h : Matches {} w Eq c c)
    (hstands : Stands {} frames frames w)
    (hkeeps : ∀ {a x b}, c.run a = .ok (x, b) → Kept a b) :
    KeepsTo frames c (Eval.outcome c frames) := by
  intro frames' hkept
  refine ⟨(h _ _ (hstands.kept hkept)).map_fst_eq.symm, fun x frames'' hrun => ?_⟩
  exact hkept.trans (hkeeps hrun)

variable {setting : Setting} {depth : ℕ} {context : Value} {t : Tree}

/-- **A tree whose bindings are confined keeps to its outcome.** -/
theorem Supported.keepsTo_eval (h : Supported frames scope) (ht : t.Confined) (setting : Setting)
    (depth : ℕ) (context : Value) :
    KeepsTo frames (eval setting depth t context scope)
      (Eval.outcome (eval setting depth t context scope) frames) := by
  obtain ⟨i, outer, w, rfl, hstands, hscope⟩ := h
  obtain ⟨input, now, clearing⟩ := setting
  exact ((agree_eval input now clearing depth t).value context hscope).keepsTo hstands
    fun hrun => (spared_of_eval (b := false) (.inr ht) hrun).kept

/-- Values are alike in any scopes. -/
theorem Binding.forall₂_alike_values {sees : Scope → Scope → Prop} {bodies : Tree → Tree → Prop}
    (vs : List Value) :
    List.Forall₂ (Binding.Alike sees bodies) (vs.map .value) (vs.map .value) := by
  refine List.forall₂_same.2 fun b hb => ?_
  obtain ⟨v, -, rfl⟩ := List.mem_map.1 hb
  exact .value v

/-- A call keeps all frames that were there before. -/
theorem kept_of_invoke {c : Callable} {vs : List Value} {v : Value}
    (h : (Eval.invoke setting (eval setting depth) context c (vs.map .value)).run frames =
      .ok (v, frames')) : Kept frames frames' := by
  obtain ⟨input, now, clearing⟩ := setting
  have hcall : Spared.congruence.rel (false, []) Eq
      (Eval.invoke ⟨input, now, clearing⟩ (eval ⟨input, now, clearing⟩ depth) context c
        (vs.map .value))
      (Eval.invoke ⟨input, now, clearing⟩ (eval ⟨input, now, clearing⟩ depth) context c
        (vs.map .value)) := by
    refine Spared.congruence.rel_invoke trivial ?_ context (Callable.alike_eq_iff.2 rfl)
      (Binding.forall₂_alike_values vs)
    rintro u _ rfl _ _ _ ⟨rfl, rfl⟩ context frames v frames' hrun
    exact ⟨spared_of_eval (.inl rfl) hrun, v, rfl⟩
  exact (hcall frames v frames' h).1

/-- **A call keeps to its outcome, whatever the function binds.** -/
theorem InSight.keepsTo_invoke (h : InSight frames scope) (setting : Setting) (depth : ℕ)
    (context : Value) (params : List String) (body : Tree) (vs : List Value) :
    KeepsTo frames
      (Eval.invoke setting (eval setting depth) context (.lambda params body scope)
        (vs.map .value))
      (Eval.outcome (Eval.invoke setting (eval setting depth) context
        (.lambda params body scope) (vs.map .value)) frames) := by
  obtain ⟨w, hstands, hscope⟩ := h
  obtain ⟨input, now, clearing⟩ := setting
  refine Matches.keepsTo ?_ hstands kept_of_invoke
  refine (Comparison.congruence {}).rel_invoke trivial ?_ context (.lambda ⟨rfl, trivial⟩ hscope)
    (Binding.forall₂_alike_values vs)
  rintro u _ ⟨rfl, -⟩ _ _ _ ⟨i, j, w, s, s', rfl, rfl, rfl, hs⟩ context
  exact (agree_eval input now clearing depth u).value context hs

/-- The frames of a scope in sight are there. -/
theorem InSight.lt_size (h : InSight frames scope) : ∀ i ∈ scope, i < frames.size := by
  obtain ⟨w, hstands, hscope⟩ := h
  exact fun i hi => (hstands.lt_size (List.forall₂_same.1 hscope i hi)).1

/-- Which function a tree stands for depends on the frames of the scope alone. -/
theorem Eval.functionOf?_congr (h : ∀ i ∈ scope, frames'[i]? = frames[i]?) (t : Tree) :
    functionOf? frames' scope t = functionOf? frames scope t := by
  cases t with
  | var name => rw [functionOf?, functionOf?, lookup?_congr h]
  | literal | context | root | field | builtin | path | filter | binary | negate | condition
  | array | object | block | bind | lambda | call => rfl

theorem InSight.functionOf? (h : InSight frames scope) (hkept : Kept frames frames') (t : Tree) :
    Eval.functionOf? frames' scope t = Eval.functionOf? frames scope t :=
  Eval.functionOf?_congr (fun i hi => hkept i (h.lt_size i hi) nofun) t

/-- A function was made in a scope of frames of the world. -/
theorem Stands.related_functionOf? {w : World} (h : Stands {} frames frames w)
    (hscope : Scope.Related w scope scope) {params : List String} {body : Tree} {s : Scope}
    (hc : Eval.functionOf? frames scope t = some (.lambda params body s)) :
    Scope.Related w s s := by
  cases t with
  | lambda params body =>
    cases hc
    exact hscope
  | var name =>
    have hname := h.lookup hscope name
    rw [Eval.functionOf?] at hc
    rcases hlookup : Eval.lookup? frames scope name with _ | ⟨v | c⟩
    · rw [hlookup] at hc
      cases hc
    · rw [hlookup] at hc
      cases hc
    · rw [hlookup] at hc hname
      cases hc
      cases hname with
      | some hbinding =>
        cases hbinding with
        | function hlambda =>
          cases hlambda with
          | lambda _ hs => exact hs
  | literal | context | root | field | builtin | path | filter | binary | negate | condition
  | array | object | block | bind | call => cases hc

theorem InSight.of_functionOf? {params : List String} {body : Tree} {s : Scope}
    (h : InSight frames scope)
    (hc : Eval.functionOf? frames scope t = some (.lambda params body s)) : InSight frames s := by
  obtain ⟨w, hstands, hscope⟩ := h
  exact ⟨w, hstands, hstands.related_functionOf? hscope hc⟩

/-! ## Where trees are evaluated

An expression is evaluated in a scope that is supported, and so are all trees inside: one after
another in the scope of the tree, and in the frames of blocks and of calls. -/

theorem supported_new : Supported #[{}] [0] :=
  ⟨0, [], [], rfl, stands_new _, .nil⟩

/-- Matching itself, a computation leaves frames that stand. -/
theorem Matches.stands_of_run {w : World} {R : α → α → Prop} {c : Eval α} {x : α}
    (h : Matches {} w R c c) (hstands : Stands {} frames frames w)
    (hrun : c.run frames = .ok (x, frames')) : R x x ∧ Stands {} frames' frames' w := by
  have houtcome := h frames frames hstands
  rw [hrun] at houtcome
  cases houtcome with
  | ok hx hstands' => exact ⟨hx, hstands'⟩

theorem Supported.of_run_eval {v : Value} (h : Supported frames scope)
    (hrun : (eval setting depth t context scope).run frames = .ok (v, frames')) :
    Supported frames' scope := by
  obtain ⟨i, outer, w, rfl, hstands, hscope⟩ := h
  obtain ⟨input, now, clearing⟩ := setting
  have hmatches := (agree_eval input now clearing depth t).value context hscope
  exact ⟨i, outer, w, rfl, (hmatches.stands_of_run hstands hrun).2, hscope⟩

theorem Supported.openBlock (h : Supported frames scope) :
    Supported (frames.push {}) (frames.size :: scope) := by
  obtain ⟨w, hstands, hscope⟩ := h.inSight
  exact ⟨frames.size, scope, w, rfl, hstands.push ⟨rfl, rfl, .nil⟩,
    hscope.mono (List.subset_cons_self _ _)⟩

theorem Supported.openCall {params : List String} {body : Tree} {s : Scope} {bs : List Binding}
    {ts : List Tree} (h : Supported frames scope)
    (hc : Eval.functionOf? frames scope t = some (.lambda params body s))
    (hrun : (Eval.arguments (eval setting depth) context scope ts).run frames =
      .ok (bs, frames')) :
    Supported (frames'.push (Eval.parameterFrame params bs)) (frames'.size :: s) := by
  obtain ⟨i, outer, w, rfl, hstands, hscope⟩ := h
  obtain ⟨input, now, clearing⟩ := setting
  have harguments : Matches {} ((i, i) :: w)
      (List.Forall₂ ((Comparison.congruence {}).Bindings ((i, i) :: w)))
      (Eval.arguments (eval ⟨input, now, clearing⟩ depth) context (i :: outer) ts)
      (Eval.arguments (eval ⟨input, now, clearing⟩ depth) context (i :: outer) ts) := by
    refine (Comparison.congruence {}).rel_arguments context hscope.enter ?_ ?_
    · exact List.forall₂_same.2 fun u _ context =>
        (agree_eval input now clearing depth u).value context hscope
    · exact List.forall₂_same.2 fun u _ => .refl fun _ => ⟨rfl, trivial⟩
  obtain ⟨hbs, hstands'⟩ := harguments.stands_of_run hstands hrun
  have hs : Scope.Related ((i, i) :: w) s s := hstands.related_functionOf? hscope.enter hc
  refine ⟨frames'.size, s, (i, i) :: w, rfl, hstands'.push ⟨rfl, rfl, ?_⟩,
    hs.mono (List.subset_cons_self _ _)⟩
  exact ((Comparison.congruence {}).alike_parameters params hbs).imp fun _ _ hb =>
    ⟨hb.1, hb.2.related⟩

/-! ## Arguments -/

/-- The bindings of the tree are confined, and its value is the document. -/
structure Denotes (setting : Setting) (depth : ℕ) (context : Value) (scope : Scope)
    (frames : Frames) (t : Tree) (v : Json) : Prop where
  confined : t.Confined
  value : Eval.outcome (eval setting depth t context scope) frames = .ok (some v)

variable {v : Json} {ts : List Tree} {bs : List Binding} {c : Callable}

theorem Supported.value_argument (h : Supported frames scope)
    (ht : Denotes setting depth context scope frames t v)
    (hrest : KeepsTo frames (Eval.arguments (eval setting depth) context scope ts) (.ok bs)) :
    KeepsTo frames (Eval.arguments (eval setting depth) context scope (t :: ts))
      (.ok (.value (some v) :: bs)) := by
  intro frames' hkept
  have hvalue := h.keepsTo_eval ht.confined setting depth context
  rw [ht.value] at hvalue
  obtain ⟨frames'', hrun, hkept'⟩ := hvalue.exists_run hkept
  have hmap := hrest.map (Binding.value (some v) :: ·) frames'' hkept'
  rwa [Eval.outcome, run_arguments_cons ts hrun]

theorem InSight.function_argument (h : InSight frames scope)
    (ht : Eval.functionOf? frames scope t = some c)
    (hrest : KeepsTo frames (Eval.arguments (eval setting depth) context scope ts) (.ok bs)) :
    KeepsTo frames (Eval.arguments (eval setting depth) context scope (t :: ts))
      (.ok (.function c :: bs)) := by
  intro frames' hkept
  have hmap := hrest.map (Binding.function c :: ·) frames' hkept
  rwa [Eval.outcome, run_arguments_function ts ((h.functionOf? hkept t).trans ht)]

theorem keepsTo_arguments_nil :
    KeepsTo frames (Eval.arguments (eval setting depth) context scope []) (.ok []) :=
  .pure []

/-! ## Folding -/

/-- Folding with calls that keep to their outcomes is folding with these. -/
theorem keepsTo_foldItems {call : List Binding → Eval Value}
    {step : Value → Json → Except EvalError Value}
    (h : ∀ acc item index, KeepsTo frames
      (call [.value acc, .value (some item), .value (some (.number (.ofNat index)))])
      (step acc item))
    (items : List Json) (index : ℕ) (acc : Value) :
    KeepsTo frames (Eval.foldItems call index acc items) (items.foldlM step acc) := by
  induction items generalizing index acc with
  | nil => exact .pure acc
  | cons item rest ih =>
    rw [List.foldlM_cons]
    exact (h acc item index).bind fun acc' _ => ih (index + 1) acc'

/-- What a function comes to on what was folded so far and the next item. -/
def foldStep (setting : Setting) (depth : ℕ) (context : Value) (c : Callable) (frames : Frames)
    (acc : Value) (item : Json) : Except EvalError Value :=
  Eval.outcome (Eval.invoke setting (eval setting depth) context c
    [.value acc, .value (some item)]) frames

variable {p q : String} {body : Tree} {s : Scope} {f x : Tree} {items : List Json} {n : ℕ}

/-- A function of two parameters does not see the position of the item. -/
theorem InSight.keepsTo_foldItems (h : InSight frames scope) (setting : Setting) (depth : ℕ)
    (context : Value) (p q : String) (body : Tree) (items : List Json) (index : ℕ) (acc : Value) :
    KeepsTo frames
      (Eval.foldItems (Eval.invoke setting (eval setting depth) context
        (.lambda [p, q] body scope)) index acc items)
      (items.foldlM (foldStep setting depth context (.lambda [p, q] body scope) frames) acc) := by
  refine Expression.keepsTo_foldItems (fun acc item index => ?_) items index acc
  exact h.keepsTo_invoke setting depth context [p, q] body [acc, some item]

theorem eval_reduce (setting : Setting) (depth : ℕ) (context : Value) (scope : Scope)
    (ts : List Tree) (n : ℕ) :
    eval setting (depth + 1) (.call (.builtin .reduce) ts n) context scope =
      Eval.arguments (eval setting depth) context scope ts >>=
        Eval.higherOrder setting (eval setting depth) context .reduce := rfl

/-- **`$reduce` from a start value is a left fold with the outcomes of the calls.** -/
theorem Supported.reduce_from (h : Supported frames scope)
    (hf : Eval.functionOf? frames scope f = some (.lambda [p, q] body s))
    (hx : Denotes setting depth context scope frames x (.array items))
    (ht : Denotes setting depth context scope frames t v) :
    Eval.outcome (eval setting (depth + 1) (.call (.builtin .reduce) [x, f, t] n) context scope)
        frames =
      items.foldlM (foldStep setting depth context (.lambda [p, q] body s) frames) (some v) := by
  have harguments := h.value_argument hx
    (h.inSight.function_argument hf (h.value_argument ht keepsTo_arguments_nil))
  have hfold := (h.inSight.of_functionOf? hf).keepsTo_foldItems setting depth context p q body
    items 0 (some v)
  rw [eval_reduce]
  exact (harguments.bind_ok hfold).outcome_eq

/-- `$reduce` without a start value begins with the first item. -/
theorem Supported.reduce_from_first {first : Json} (h : Supported frames scope)
    (hf : Eval.functionOf? frames scope f = some (.lambda [p, q] body s))
    (hx : Denotes setting depth context scope frames x (.array (first :: items))) :
    Eval.outcome (eval setting (depth + 1) (.call (.builtin .reduce) [x, f] n) context scope)
        frames =
      items.foldlM (foldStep setting depth context (.lambda [p, q] body s) frames)
        (some first) := by
  have harguments := h.value_argument hx (h.inSight.function_argument hf keepsTo_arguments_nil)
  have hfold := (h.inSight.of_functionOf? hf).keepsTo_foldItems setting depth context p q body
    items 1 (some first)
  rw [eval_reduce]
  exact (harguments.bind_ok hfold).outcome_eq

/-! ## Arrays put together -/

/-- More levels do not change what a tree denotes. -/
theorem Supported.denotes_of_le (h : Supported frames scope) {least limit : ℕ} (hle : least ≤ limit)
    (ht : Denotes setting least context scope frames t v) :
    Denotes setting limit context scope frames t v := by
  obtain ⟨i, outer, w, rfl, hstands, hscope⟩ := h
  obtain ⟨input, now, clearing⟩ := setting
  have hvalue := ht.value
  have houtcome := (agree_eval_of_le input now clearing hle t).value context hscope _ _
    (hstands.imp fun _ _ => trivial)
  refine ⟨ht.confined, ?_⟩
  unfold Eval.outcome at hvalue ⊢
  generalize (eval ⟨input, now, clearing⟩ least t context (i :: outer)).run frames = o
    at hvalue houtcome
  generalize (eval ⟨input, now, clearing⟩ limit t context (i :: outer)).run frames = o'
    at houtcome
  cases houtcome with
  | ok hxy =>
    cases hvalue
    subst hxy
    rfl
  | error => cases hvalue
  | excused => cases hvalue

/-- Two arrays put together, one level above. -/
theorem Supported.denotes_append (h : Supported frames scope) {y : Tree} {xs ys : List Json}
    (hx : Denotes setting depth context scope frames x (.array xs))
    (hy : Denotes setting depth context scope frames y (.array ys)) (n : ℕ) :
    Denotes setting (depth + 1) context scope frames (.call (.builtin .append) [x, y] n)
      (.array (xs ++ ys)) := by
  refine ⟨.of_inner rfl ?_, ?_⟩
  · have hbuiltin : (Tree.builtin .append).Confined := .of_inner rfl (List.forall_mem_nil _)
    intro u hu
    have hmem : u = .builtin .append ∨ u = x ∨ u = y := by simpa [Tree.inner, Tree.parts] using hu
    rcases hmem with rfl | rfl | rfl
    · exact hbuiltin
    · exact hx.confined
    · exact hy.confined
  · obtain ⟨frames', hrun, -⟩ := (h.value_argument hx
      (h.value_argument hy keepsTo_arguments_nil)).exists_run (.refl _ _ _)
    rw [Eval.outcome, run_call_builtin rfl n hrun]
    rfl

/-- **`$reduce` is a left fold that composes over concatenation**, wherever it is evaluated and
whatever its function binds.  A call of a function of two parameters comes to what it comes to
before the others, and leaves all frames as they are, so that only what was folded so far and the
item count.  From a start value, `$reduce` folds the items with these outcomes, errors included.  If
it comes to `r` on one array, then on this one and another put together it comes to what it comes to
on the other one from `r`; and without a start value it begins with the first item.  The arguments
are any trees that denote the values. -/
theorem reduce_composes (setting : Setting) (depth : ℕ) (context : Value) (scope : Scope)
    (frames : Frames) (h : Supported frames scope) (f : Tree) (p q : String) (body : Tree)
    (s : Scope) (hf : Eval.functionOf? frames scope f = some (.lambda [p, q] body s)) :
    let step := foldStep setting (depth + 1) context (.lambda [p, q] body s) frames
    let value := fun t => Eval.outcome (eval setting (depth + 2) t context scope) frames
    (∀ (acc : Value) (item : Json),
      KeepsTo frames (Eval.invoke setting (eval setting (depth + 1)) context
        (.lambda [p, q] body s) [.value acc, .value (some item)]) (step acc item)) ∧
    (∀ (x a : Tree) (xs : List Json) (v : Json) (n : ℕ),
      Denotes setting (depth + 1) context scope frames x (.array xs) →
      Denotes setting (depth + 1) context scope frames a v →
      value (.call (.builtin .reduce) [x, f, a] n) = xs.foldlM step (some v)) ∧
    (∀ (x y a b : Tree) (xs ys : List Json) (v r : Json) (l m n : ℕ),
      Denotes setting depth context scope frames x (.array xs) →
      Denotes setting depth context scope frames y (.array ys) →
      Denotes setting (depth + 1) context scope frames a v →
      Denotes setting (depth + 1) context scope frames b r →
      value (.call (.builtin .reduce) [x, f, a] l) = .ok (some r) →
      value (.call (.builtin .reduce) [.call (.builtin .append) [x, y] m, f, a] n) =
        value (.call (.builtin .reduce) [y, f, b] n)) ∧
    ∀ (x y a : Tree) (first : Json) (rest : List Json) (n : ℕ),
      Denotes setting (depth + 1) context scope frames x (.array (first :: rest)) →
      Denotes setting (depth + 1) context scope frames y (.array rest) →
      Denotes setting (depth + 1) context scope frames a first →
      value (.call (.builtin .reduce) [x, f] n) = value (.call (.builtin .reduce) [y, f, a] n) := by
  intro step value
  refine ⟨fun acc item => ?_, fun x a xs v n hx ha => h.reduce_from hf hx ha, ?_, ?_⟩
  · exact (h.inSight.of_functionOf? hf).keepsTo_invoke setting (depth + 1) context [p, q] body
      [acc, some item]
  · intro x y a b xs ys v r l m n hx hy ha hb hr
    have hxs : xs.foldlM step (some v) = .ok (some r) :=
      (h.reduce_from hf (h.denotes_of_le (Nat.le_succ depth) hx) ha).symm.trans hr
    calc value (.call (.builtin .reduce) [.call (.builtin .append) [x, y] m, f, a] n)
      _ = (xs ++ ys).foldlM step (some v) := h.reduce_from hf (h.denotes_append hx hy m) ha
      _ = xs.foldlM step (some v) >>= fun acc => ys.foldlM step acc := List.foldlM_append
      _ = ys.foldlM step (some r) := by rw [hxs]; rfl
      _ = value (.call (.builtin .reduce) [y, f, b] n) :=
        (h.reduce_from hf (h.denotes_of_le (Nat.le_succ depth) hy) hb).symm
  · intro x y a first rest n hx hy ha
    exact (h.reduce_from_first hf hx).trans (h.reduce_from hf hy ha).symm

/-- The literal of a row of texts. -/
def textsTree (ss : List String) : Tree := .literal (.array (ss.map .string))

/-- A function that puts its second argument behind the first, which it binds again. -/
def joiningTree : Tree :=
  .lambda ["a", "b"] (.block [.bind "a" (.binary .concat (.var "a") (.var "b")), .var "a"])

theorem texts_are_joined_in_two_parts :
    let setting : Setting := ⟨.null, "", true⟩
    let value := fun t => Eval.outcome (eval setting 9 t none [0]) #[{}]
    value (.call (.builtin .reduce) [textsTree ["p", "q"], joiningTree,
        .literal (.string "")] 0) = .ok (some (.string "pq"))
      ∧ value (.call (.builtin .reduce) [.call (.builtin .append)
          [textsTree ["p", "q"], textsTree ["r", "s"]] 0, joiningTree, .literal (.string "")] 0) =
        value (.call (.builtin .reduce) [textsTree ["r", "s"], joiningTree,
          .literal (.string "pq")] 0)
      ∧ value (.call (.builtin .reduce) [textsTree ["p", "q"], joiningTree] 0) =
        value (.call (.builtin .reduce) [textsTree ["q"], joiningTree,
          .literal (.string "p")] 0) := by
  intro setting value
  have hliteral : ∀ (depth : ℕ) (v : Json),
      Denotes setting (depth + 1) none [0] #[{}] (.literal v) v :=
    fun depth v => ⟨.of_inner rfl (List.forall_mem_nil _), rfl⟩
  obtain ⟨-, -, happend, hfirst⟩ := reduce_composes setting 7 none [0] #[{}] supported_new
    joiningTree "a" "b" _ [0] rfl
  have hpq : value (.call (.builtin .reduce) [textsTree ["p", "q"], joiningTree,
      .literal (.string "")] 0) = .ok (some (.string "pq")) := by rfl
  exact ⟨hpq,
    happend _ _ _ _ _ _ _ _ 0 0 0 (hliteral 6 _) (hliteral 6 _) (hliteral 7 _) (hliteral 7 _) hpq,
    hfirst _ _ _ _ _ 0 (hliteral 7 _) (hliteral 7 _) (hliteral 7 _)⟩

end Reshape.Expression
