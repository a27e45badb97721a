/-
# Trees at other places

A call keeps the place at which it was written, for its fault only.  Two trees that differ in
nothing else (`Tree.Moved`) have the same faults but for the places, and they are evaluated to
the same result on every input (`Moved.result_eq`).
-/
import Reshape.Expression.Compiled
import Reshape.Proofs.Regrouping

namespace Reshape.Expression

namespace Tree

mutual

/-- The tree as if all of its calls were written at the beginning. -/
def unplaced : Tree → Tree
  | .path steps => .path (unplacedList steps)
  | .filter base predicate => .filter base.unplaced predicate.unplaced
  | .binary op l r => .binary op l.unplaced r.unplaced
  | .negate v => .negate v.unplaced
  | .condition test yes no? => .condition test.unplaced yes.unplaced (unplacedOption no?)
  | .array items => .array (unplacedList items)
  | .object entries => .object (unplacedEntries entries)
  | .block items => .block (unplacedList items)
  | .bind name v => .bind name v.unplaced
  | .lambda params body => .lambda params body.unplaced
  | .call callee args _ => .call callee.unplaced (unplacedList args) 0
  | .literal v => .literal v
  | .context => .context
  | .root => .root
  | .field name => .field name
  | .var name => .var name
  | .builtin f => .builtin f

def unplacedList : List Tree → List Tree
  | [] => []
  | t :: rest => t.unplaced :: unplacedList rest

def unplacedOption : Option Tree → Option Tree
  | none => none
  | some t => some t.unplaced

def unplacedEntries : List (Tree × Tree) → List (Tree × Tree)
  | [] => []
  | (k, v) :: rest => (k.unplaced, v.unplaced) :: unplacedEntries rest

end

/-- Two trees that differ at most in the places of their calls. -/
def Moved (t u : Tree) : Prop := t.unplaced = u.unplaced

theorem unplacedList_eq_iff {ts us : List Tree} :
    unplacedList ts = unplacedList us ↔ List.Forall₂ Moved ts us := by
  induction ts generalizing us with
  | nil => cases us <;> simp [unplacedList]
  | cons t ts ih => cases us <;> simp [unplacedList, Moved, ih]

theorem unplacedEntries_eq_iff {es fs : List (Tree × Tree)} :
    unplacedEntries es = unplacedEntries fs ↔ List.Forall₂ (LikeEntry Moved) es fs := by
  induction es generalizing fs with
  | nil => cases fs <;> simp [unplacedEntries]
  | cons e es ih =>
    obtain ⟨k, v⟩ := e
    cases fs with
    | nil => simp [unplacedEntries]
    | cons f fs =>
      obtain ⟨k', v'⟩ := f
      rw [unplacedEntries, unplacedEntries, List.cons.injEq, Prod.mk.injEq, ih, List.forall₂_cons]
      refine and_congr_left' ⟨fun h => .mk h.1 h.2, ?_⟩
      rintro ⟨hkey, hvalue⟩
      exact ⟨hkey, hvalue⟩

theorem unplacedOption_eq_iff {o p : Option Tree} :
    unplacedOption o = unplacedOption p ↔ Option.Rel Moved o p := by
  cases o <;> cases p <;> simp [unplacedOption, Moved]

/-! ## Faults -/

theorem length_unplacedList (ts : List Tree) : (unplacedList ts).length = ts.length := by
  induction ts with
  | nil => rfl
  | cons t ts ih => rw [unplacedList, List.length_cons, List.length_cons, ih]

/-- A call has the same fault wherever it stands. -/
theorem cause_callFault? (callee : Tree) (given position : Nat) :
    (callFault? callee.unplaced given 0).map Fault.cause =
      (callFault? callee given position).map Fault.cause := by
  cases callee with
  | builtin f =>
    rw [unplaced, callFault?, callFault?]
    split <;> rfl
  | _ => rfl

mutual

/-- The first fault of a tree has the same cause wherever the tree stands. -/
theorem cause_unplaced (t : Tree) :
    t.unplaced.arityFault?.map Fault.cause = t.arityFault?.map Fault.cause := by
  cases t with
  | literal | context | root | field | var | builtin => rfl
  | path steps => exact cause_unplacedList steps
  | array items => exact cause_unplacedList items
  | block items => exact cause_unplacedList items
  | object entries => exact cause_unplacedEntries entries
  | negate v => exact cause_unplaced v
  | bind _ v => exact cause_unplaced v
  | lambda _ body => exact cause_unplaced body
  | filter base predicate =>
    rw [unplaced, arityFault?, arityFault?, Option.map_or, Option.map_or, cause_unplaced base,
      cause_unplaced predicate]
  | binary op l r =>
    rw [unplaced, arityFault?, arityFault?, Option.map_or, Option.map_or, cause_unplaced l,
      cause_unplaced r]
  | condition test yes no? =>
    rw [unplaced, arityFault?, arityFault?, Option.map_or, Option.map_or, Option.map_or,
      Option.map_or, cause_unplaced test, cause_unplaced yes]
    cases no? with
    | none => rfl
    | some no => rw [unplacedOption, arityFaultOption?, arityFaultOption?, cause_unplaced no]
  | call callee args position =>
    rw [unplaced, arityFault?, arityFault?, Option.map_or, Option.map_or, Option.map_or,
      Option.map_or, length_unplacedList, cause_callFault? callee args.length position,
      cause_unplaced callee, cause_unplacedList args]

theorem cause_unplacedList (ts : List Tree) :
    (arityFaultList? (unplacedList ts)).map Fault.cause =
      (arityFaultList? ts).map Fault.cause := by
  cases ts with
  | nil => rfl
  | cons t ts =>
    rw [unplacedList, arityFaultList?, arityFaultList?, Option.map_or, Option.map_or,
      cause_unplaced t, cause_unplacedList ts]

theorem cause_unplacedEntries (es : List (Tree × Tree)) :
    (arityFaultEntries? (unplacedEntries es)).map Fault.cause =
      (arityFaultEntries? es).map Fault.cause := by
  match es with
  | [] => rfl
  | (k, v) :: es =>
    rw [unplacedEntries, arityFaultEntries?, arityFaultEntries?, Option.map_or, Option.map_or,
      Option.map_or, Option.map_or, cause_unplaced k, cause_unplaced v, cause_unplacedEntries es]

end

namespace Moved

variable {t u : Tree}

theorem cause_eq (h : t.Moved u) :
    t.arityFault?.map Fault.cause = u.arityFault?.map Fault.cause := by
  rw [← cause_unplaced t, h, cause_unplaced u]

theorem isBind_eq (h : t.Moved u) : t.isBind = u.isBind := by
  have hunplaced : ∀ t : Tree, t.unplaced.isBind = t.isBind := by
    intro t
    cases t <;> rfl
  rw [← hunplaced t, h, hunplaced u]

theorem isFunction_eq (h : t.Moved u) : t.isFunction = u.isFunction := by
  have hunplaced : ∀ t : Tree, t.unplaced.isFunction = t.isFunction := by
    intro t
    cases t <;> rfl
  rw [← hunplaced t, h, hunplaced u]

/-- Two trees that stand at different places stand for the same function. -/
theorem sameFunction (h : t.Moved u) : t.SameFunction Moved u := by
  cases hfunction : t.isFunction with
  | false => exact .none hfunction (h.isFunction_eq.symm.trans hfunction)
  | true =>
    unfold Moved at h
    cases t with
    | builtin f =>
      cases u <;> simp only [unplaced, reduceCtorEq, builtin.injEq] at h
      exact h ▸ .builtin f
    | var name =>
      cases u <;> simp only [unplaced, reduceCtorEq, var.injEq] at h
      exact h ▸ .var name
    | lambda params body =>
      cases u <;> simp only [unplaced, reduceCtorEq, lambda.injEq] at h
      obtain ⟨rfl, hbody⟩ := h
      exact .lambda params hbody
    | literal | context | root | field | path | filter | binary | negate | condition | array
    | object | block | bind | call => cases hfunction

/-- Moved trees are of one construct, but for the place of a call, which no evaluation reads. -/
theorem like (h : t.Moved u) : ∃ u', t.Like true Moved Moved Moved u' ∧
    ∀ (setting : Setting) (eval : Evaluator),
      evalNode setting eval u' = evalNode setting eval u := by
  have hfunction := h.sameFunction
  unfold Moved at h
  suffices hsame : t.Like true Moved Moved Moved u ∨ ∃ callee args position position',
      u = .call callee args position ∧
        t.Like true Moved Moved Moved (.call callee args position') by
    rcases hsame with hsame | ⟨callee, args, position, position', rfl, hsame⟩
    · exact ⟨u, hsame, fun _ _ => rfl⟩
    · exact ⟨_, hsame, fun _ _ => rfl⟩
  cases t with
  | literal v =>
    cases u <;> simp only [unplaced, reduceCtorEq, literal.injEq] at h
    exact Or.inl (h ▸ .literal v)
  | context =>
    cases u <;> simp only [unplaced, reduceCtorEq] at h
    exact Or.inl .context
  | root =>
    cases u <;> simp only [unplaced, reduceCtorEq] at h
    exact Or.inl .root
  | field name =>
    cases u <;> simp only [unplaced, reduceCtorEq, field.injEq] at h
    exact Or.inl (h ▸ .field name)
  | var name =>
    cases u <;> simp only [unplaced, reduceCtorEq, var.injEq] at h
    exact Or.inl (h ▸ .var name)
  | builtin f =>
    cases u <;> simp only [unplaced, reduceCtorEq, builtin.injEq] at h
    exact Or.inl (h ▸ .builtin f)
  | path steps =>
    cases u <;> simp only [unplaced, reduceCtorEq, path.injEq] at h
    exact Or.inl (.path (unplacedList_eq_iff.1 h))
  | filter base predicate =>
    cases u <;> simp only [unplaced, reduceCtorEq, filter.injEq] at h
    exact Or.inl (.filter h.1 h.2)
  | binary op l r =>
    cases u <;> simp only [unplaced, reduceCtorEq, binary.injEq] at h
    obtain ⟨rfl, hl, hr⟩ := h
    exact Or.inl (.binary op hl hr)
  | negate v =>
    cases u <;> simp only [unplaced, reduceCtorEq, negate.injEq] at h
    exact Or.inl (.negate h)
  | condition test yes no? =>
    cases u <;> simp only [unplaced, reduceCtorEq, condition.injEq] at h
    exact Or.inl (.condition h.1 h.2.1 (unplacedOption_eq_iff.1 h.2.2))
  | array items =>
    cases u <;> simp only [unplaced, reduceCtorEq, array.injEq] at h
    exact Or.inl (.array (unplacedList_eq_iff.1 h))
  | object entries =>
    cases u <;> simp only [unplaced, reduceCtorEq, object.injEq] at h
    exact Or.inl (.object (unplacedEntries_eq_iff.1 h))
  | block items =>
    cases u <;> simp only [unplaced, reduceCtorEq, block.injEq] at h
    exact Or.inl (.block (unplacedList_eq_iff.1 h))
  | bind name v =>
    cases u <;> simp only [unplaced, reduceCtorEq, bind.injEq] at h
    obtain ⟨rfl, hv⟩ := h
    exact Or.inl (.bind rfl name hv (sameFunction hv))
  | lambda params body =>
    cases u <;> simp only [unplaced, reduceCtorEq, lambda.injEq] at h
    obtain ⟨rfl, hbody⟩ := h
    exact Or.inl (.lambda params hbody)
  | call callee args position =>
    cases u <;> simp only [unplaced, reduceCtorEq, call.injEq] at h
    have hargs := unplacedList_eq_iff.1 h.2.1
    exact Or.inr ⟨_, _, _, position, rfl, .call (sameFunction h.1) hargs
      (hargs.imp fun _ _ h => sameFunction h) position⟩

end Moved

end Tree

/-! ## Evaluation -/

namespace Places

/-- Bindings to the same, but for the places in the bodies of functions. -/
abbrev Bound : Binding → Binding → Prop := Binding.Alike Eq Tree.Moved

/-- Frames in which the same names are bound to the same, but for places. -/
def Framed (f g : Frame) : Prop :=
  List.Forall₂ (fun x y => x.1 = y.1 ∧ Bound x.2 y.2) f.bindings g.bindings

/-- The frames behind two evaluations, one by one. -/
structure Beside (a b : Frames) : Prop where
  size : a.size = b.size
  framed : ∀ i : FrameId, Option.Rel Framed a[i]? b[i]?

namespace Beside

variable {a b : Frames}

theorem new : Beside #[{}] #[{}] := by
  refine ⟨rfl, fun i => ?_⟩
  match i with
  | 0 => exact .some .nil
  | i + 1 => exact .none

theorem push (h : Beside a b) {f g : Frame} (hfg : Framed f g) :
    Beside (a.push f) (b.push g) := by
  refine ⟨by rw [Array.size_push, Array.size_push, h.size], fun i => ?_⟩
  rw [Array.getElem?_push, Array.getElem?_push, h.size]
  split
  · exact .some hfg
  · exact h.framed i

theorem modify (h : Beside a b) (i : FrameId) {f g : Frame → Frame}
    (hfg : ∀ x y, Framed x y → Framed (f x) (g y)) :
    Beside (a.modify i f) (b.modify i g) := by
  refine ⟨by rw [Array.size_modify, Array.size_modify, h.size], fun j => ?_⟩
  rw [Array.getElem?_modify, Array.getElem?_modify]
  have hj := h.framed j
  split
  · generalize a[j]? = x at hj ⊢
    generalize b[j]? = y at hj ⊢
    cases hj with
    | none => exact .none
    | some hxy => exact .some (hfg _ _ hxy)
  · exact hj

/-- A name is bound to the same in both. -/
theorem lookup (h : Beside a b) (s : Scope) (name : String) :
    Option.Rel Bound (Eval.lookup? a s name) (Eval.lookup? b s name) := by
  induction s with
  | nil => exact .none
  | cons i s ih =>
    unfold Eval.lookup? at ih ⊢
    rw [List.findSome?_cons, List.findSome?_cons]
    have hi := h.framed i
    generalize a[i]? = x at hi ⊢
    generalize b[i]? = y at hi ⊢
    cases hi with
    | none => exact ih
    | @some f g hfg =>
      have hname := Binding.rel_lookup hfg name
      rw [Option.bind_some, Option.bind_some]
      generalize f.bindings.lookup name = x at hname ⊢
      generalize g.bindings.lookup name = y at hname ⊢
      cases hname with
      | none => exact ih
      | some hb => exact .some hb

end Beside

/-- Results that `R` relates with frames one beside the other, or the same error. -/
inductive Outcome {α β : Type} (R : α → β → Prop) :
    Except EvalError (α × Frames) → Except EvalError (β × Frames) → Prop
  | ok {x : α} {y : β} {a b : Frames} (hxy : R x y) (hab : Beside a b) :
      Outcome R (.ok (x, a)) (.ok (y, b))
  | error (e : EvalError) : Outcome R (.error e) (.error e)

/-- The relation between evaluations of trees at different places. -/
def congruence : Congruence Eval Eval where
  World := Unit
  sees _ := Eq
  bodies := Tree.Moved
  scopes _ _ := Eq
  frames _ := Beside
  clears := Eq
  rel _ R c c' := ∀ a b, Beside a b → Outcome R (c.run a) (c'.run b)
  sees_of_scopes h := h
  lookup := by
    rintro _ s _ a b hab rfl name
    exact hab.lookup s name
  pure hxy _ _ hab := .ok hxy hab
  bind := by
    intro _ _ _ _ _ _ _ c c' f f' hc hf a b hab
    have hfirst := hc a b hab
    rw [StateT.run_bind, StateT.run_bind]
    generalize c.run a = o at hfirst ⊢
    generalize c'.run b = o' at hfirst ⊢
    cases hfirst with
    | ok hxy hab' => exact hf _ _ hxy _ _ hab'
    | error e => exact .error e
  throw _ _ _ _ := .error _
  lift {_ _ x} _ _ _ hab := by
    cases x with
    | ok v => exact .ok rfl hab
    | error e => exact .error e
  get _ _ hab := .ok hab hab
  note := by
    rintro _ s _ v v' name rfl hv a b hab
    cases s with
    | nil => exact .ok rfl hab
    | cons i s => exact .ok rfl (hab.modify i fun _ _ hxy => .cons ⟨rfl, hv⟩ hxy)
  inFrame := by
    rintro _ s _ bs bs' clearing _ body body' rfl rfl hbs hbody a b hab
    have hframe : Framed { bindings := bs } { bindings := bs' } := hbs
    have hinner := hbody () a.size a.size rfl _ _ (hab.push hframe)
    show Outcome Eq
      ((body (a.size :: s)).run (a.push _) >>= fun r => .ok (r.1, r.2.modify a.size _))
      ((body' (b.size :: s)).run (b.push _) >>= fun r => .ok (r.1, r.2.modify b.size _))
    rw [← hab.size]
    generalize (body (a.size :: s)).run (a.push _) = o at hinner ⊢
    generalize (body' (a.size :: s)).run (b.push _) = o' at hinner ⊢
    cases hinner with
    | error e => exact .error e
    | ok hxy hab' =>
      refine .ok hxy (hab'.modify _ fun x y hxy => ?_)
      cases clearing with
      | true => exact .nil
      | false => exact hxy

end Places

/-- Trees at different places are evaluated alike in every scope. -/
theorem Tree.Moved.relates {t u : Tree} (h : t.Moved u) (setting : Setting) (depth : Nat)
    (s : Scope) :
    Places.congruence.Relates () s s (eval setting depth) (eval setting depth) t u := by
  induction depth generalizing t u s with
  | zero => exact fun context a b hab => .error _
  | succ depth ih =>
    obtain ⟨input, now, clearing⟩ := setting
    obtain ⟨u', hlike, hsame⟩ := h.like
    have hnode : Places.congruence.Relates () s s
        (evalNode ⟨input, now, clearing⟩ (eval ⟨input, now, clearing⟩ depth))
        (evalNode ⟨input, now, clearing⟩ (eval ⟨input, now, clearing⟩ depth)) t u' := by
      refine Places.congruence.rel_evalNode (Q := Tree.Moved) rfl ?_ rfl ?_
        (hlike.imp_inner (fun _ => rfl) fun _ _ _ hu => ih hu s)
      · rintro _ _ hbody _ s _ rfl
        exact ih hbody s
      · rintro _ s _ _ _ rfl hu
        exact ih hu s
    intro context
    have hcontext := hnode context
    rw [hsame] at hcontext
    exact hcontext

/-- **Trees at different places have the same result on every input.** -/
theorem Tree.Moved.result_eq {t u : Tree} (h : t.Moved u) (now : String) (input : Json) :
    result now t input = result now u input := by
  have houtcome := h.relates ⟨input, now, true⟩ maxDepth [0] (some input) _ _ Places.Beside.new
  unfold result evaluate
  generalize (eval ⟨input, now, true⟩ maxDepth t (some input) [0]).run #[{}] = o at houtcome ⊢
  generalize (eval ⟨input, now, true⟩ maxDepth u (some input) [0]).run #[{}] = o' at houtcome ⊢
  cases houtcome with
  | ok hxy _ => exact congrArg (fun v => Except.ok (Option.getD v .null)) hxy
  | error e => rfl

end Reshape.Expression
