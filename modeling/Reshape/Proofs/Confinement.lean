/-
# Bindings stay in their block

A binding goes to the innermost frame of its scope.  So the evaluation of a tree changes no
other frame that was there before, and if all bindings in the tree are in blocks and functions
inside (`Tree.Confined`), it changes none at all (`spared_of_eval`): what is bound in a block is
not seen behind it.
-/
import Mathlib.Tactic
import Reshape.Proofs.Congruence
import Reshape.Proofs.Sequencing

namespace Reshape.Expression

/-- All bindings of the tree are in blocks and functions inside. -/
inductive Tree.Confined : Tree → Prop
  | of_inner {t : Tree} (hbind : t.isBind = false) (hinner : ∀ u ∈ t.inner, Confined u) :
      Confined t

theorem Tree.confined_block (items : List Tree) : (Tree.block items).Confined :=
  .of_inner rfl (List.forall_mem_nil _)

/-! ## Frames that are spared -/

/-- Every frame that was there before is as it was, save the innermost of the scope if `binds`
is set. -/
def Spared (binds : Bool) (s : Scope) (frames frames' : Frames) : Prop :=
  ∀ i < frames.size, (binds = true → s.head? ≠ some i) → frames'[i]? = frames[i]?

namespace Spared

variable {b : Bool} {s : Scope} {frames frames' frames'' : Frames}

theorem refl (b : Bool) (s : Scope) (frames : Frames) : Spared b s frames frames :=
  fun _ _ _ => rfl

theorem trans (h : Spared b s frames frames') (h' : Spared b s frames' frames'') :
    Spared b s frames frames'' := by
  intro i hi hs
  have hfirst := h i hi hs
  have hi' : i < frames'.size :=
    (Array.getElem?_eq_some_iff.1 (hfirst.trans (Array.getElem?_eq_getElem hi))).1
  exact (h' i hi' hs).trans hfirst

/-- A binding in a scope where names may be bound spares the other frames. -/
theorem modify {i : FrameId} {outer : Scope} (f : Frame → Frame) :
    Spared true (i :: outer) frames (frames.modify i f) := by
  intro j _ hs
  rw [Array.getElem?_modify, if_neg]
  rintro rfl
  exact hs rfl rfl

/-- A frame that was opened and closed again is not one of those that were there before. -/
theorem inFrame {frame : Frame} {outer : Scope} {close : Frame → Frame}
    (h : Spared true (frames.size :: outer) (frames.push frame) frames') :
    Spared b s frames (frames'.modify frames.size close) := by
  intro i hi _
  have hne : frames.size ≠ i := Nat.ne_of_gt hi
  have hinner := h i (by rw [Array.size_push]; omega) fun _ h => hne (Option.some.inj h)
  rw [Array.getElem?_modify, if_neg hne, hinner, Array.getElem?_push, if_neg hne.symm]

/-- The computations that spare frames, each beside itself. -/
def congruence : Congruence Eval Eval where
  World := Bool × Scope
  sees _ := Eq
  bodies := Eq
  scopes b w s s' := w = (b, s) ∧ s = s'
  frames _ := Eq
  clears _ _ := True
  rel w R c _ := ∀ frames x frames', c.run frames = .ok (x, frames') →
    Spared w.1 w.2 frames frames' ∧ ∃ y, R x y
  sees_of_scopes h := h.2
  lookup := by
    rintro _ s _ a _ rfl rfl name
    exact Eval.lookup?_alike_eq a s name
  pure := by
    intro _ _ w _ x y hxy frames _ _ hrun
    cases hrun
    exact ⟨.refl _ _ _, y, hxy⟩
  bind := by
    intro _ _ _ _ w _ _ c _ f _ hc hf frames z frames'' hrun
    obtain ⟨x, frames', hx, hrun⟩ := exists_of_run_bind hrun
    obtain ⟨hfirst, y, hxy⟩ := hc frames x frames' hx
    obtain ⟨hthen, hz⟩ := hf x y hxy frames' z frames'' hrun
    exact ⟨hfirst.trans hthen, hz⟩
  throw _ _ _ _ hrun := by cases hrun
  lift := by
    intro _ w x _ frames y frames' hrun
    cases x with
    | error e => cases hrun
    | ok v =>
      cases hrun
      exact ⟨.refl _ _ _, y, rfl⟩
  get := by
    intro w frames _ _ hrun
    cases hrun
    exact ⟨.refl _ _ _, frames, rfl⟩
  note := by
    rintro _ s _ v _ name ⟨rfl, rfl⟩ _ frames _ frames' hrun
    cases s with
    | nil =>
      cases hrun
      exact ⟨.refl _ _ _, (), rfl⟩
    | cons i s =>
      cases hrun
      exact ⟨.modify _, (), rfl⟩
  inFrame := by
    rintro w s _ bs _ clearing _ body body' - rfl - hbody frames v frames' hrun
    have hsplit : (Eval.inFrame clearing { bindings := bs } s body).run frames =
        (body (frames.size :: s)).run (frames.push { bindings := bs }) >>= fun r =>
          .ok (r.1, r.2.modify frames.size (Frame.close clearing)) := rfl
    rw [hsplit] at hrun
    cases hx : (body (frames.size :: s)).run (frames.push { bindings := bs }) with
    | error e =>
      rw [hx] at hrun
      cases hrun
    | ok r =>
      rw [hx] at hrun
      cases hrun
      have hinner := hbody _ frames.size frames.size ⟨rfl, rfl⟩ _ _ _ hx
      exact ⟨hinner.1.inFrame, r.1, rfl⟩

end Spared

/-- **The evaluation of a tree spares all frames but the innermost**, and that one too if its
bindings are confined. -/
theorem spared_of_eval {setting : Setting} {depth : Nat} {b : Bool} {t : Tree}
    (ht : b = true ∨ t.Confined) {context : Value} {s : Scope} {frames frames' : Frames}
    {v : Value} (hrun : (eval setting depth t context s).run frames = .ok (v, frames')) :
    Spared b s frames frames' := by
  have hrelates : Spared.congruence.Relates (b, s) s s (eval setting depth)
      (eval setting depth) t t := by
    clear hrun
    -- trees in frames of their own may bind there, so `b` is generalized
    induction depth generalizing b t s with
    | zero =>
      intro context frames x frames' hrun
      cases hrun
    | succ depth ih =>
      obtain ⟨input, now, clearing⟩ := setting
      refine Spared.congruence.rel_evalNode_same trivial Iff.rfl ?_ ⟨rfl, rfl⟩ ?_ ?_
      · rintro _ s _ ⟨rfl, rfl⟩ u
        exact ih (Or.inl rfl)
      · intro hbind
        rcases ht with hb | ⟨hnot, -⟩
        · exact hb
        · rw [hnot] at hbind
          cases hbind
      · intro u hu
        rcases ht with hb | ⟨-, hinner⟩
        · exact ih (Or.inl hb)
        · exact ih (Or.inr (hinner u hu))
  exact (hrelates context frames v frames' hrun).1

/-- What a name means in a scope depends on the frames of the scope alone. -/
theorem Eval.lookup?_congr {frames frames' : Frames} {scope : Scope}
    (h : ∀ i ∈ scope, frames'[i]? = frames[i]?) (name : String) :
    lookup? frames' scope name = lookup? frames scope name := by
  induction scope with
  | nil => rfl
  | cons i scope ih =>
    obtain ⟨hi, hscope⟩ := List.forall_mem_cons.1 h
    have hrest := ih hscope
    unfold lookup? at hrest ⊢
    rw [List.findSome?_cons, List.findSome?_cons, hi, hrest]

/-- **What is confined is not seen outside.**  In a scope of frames that were there before, every
name means what it meant before. -/
theorem Tree.Confined.keeps_variables {setting : Setting} {depth : Nat} {t : Tree}
    (ht : t.Confined) {context v : Value} {s : Scope} {frames frames' : Frames}
    (hrun : (eval setting depth t context s).run frames = .ok (v, frames')) {outer : Scope}
    (houter : ∀ i ∈ outer, i < frames.size) (name : String) :
    Eval.lookup? frames' outer name = Eval.lookup? frames outer name := by
  have hspared : Spared false s frames frames' := spared_of_eval (Or.inr ht) hrun
  exact Eval.lookup?_congr (fun i hi => hspared i (houter i hi) (by simp)) name

end Reshape.Expression
