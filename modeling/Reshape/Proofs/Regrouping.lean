/-
# Groups that can be dropped

Parentheses make a block, unless there is one expression in them that is no binding itself;
that one stands for the group (`Parser.after_block_items`).  If its bindings are confined, it is
as good as the block.  To see this, the evaluation of a tree in which such blocks are kept
(`Tree.Regrouped`) is followed beside that of the tree without them.  The open frames of both are
a stack.  Most of them come in pairs; the frame of a block that only the first evaluation has is
there as well, and nothing is ever bound in it, so a look-up passes it by (`Stacked.lookup`).

The item of a group may still have bindings that are not confined, in the items of an array for
example.  They go to the frame around the group, where they are seen behind it.
-/
import Mathlib.Tactic
import Reshape.Proofs.Confinement
import Reshape.Proofs.Names

namespace Reshape.Expression

/-! ## Trees with more groups -/

/-- The first tree is the second with blocks around some trees inside, one in each, whose bindings
are confined.  There are none around what stands for a function where one is wanted. -/
inductive Tree.Regrouped : Tree → Tree → Prop
  | node {t t' : Tree} (h : t.Like true Regrouped Regrouped Regrouped t') : Regrouped t t'
  | group {t t' : Tree} (h : Regrouped t t') (hconfined : t'.Confined) : Regrouped (.block [t]) t'

theorem Tree.Regrouped.refl (t : Tree) : t.Regrouped t := by
  -- on the height, since the body of a function that is an argument lies two levels below
  obtain ⟨n, hle⟩ : ∃ n, t.height ≤ n := ⟨_, le_rfl⟩
  induction n generalizing t with
  | zero => exact absurd t.height_pos (Nat.not_lt.2 hle)
  | succ n ih =>
    have hparts := Tree.height_le_succ_iff.1 hle
    have hsame : ∀ u ∈ t.parts, u.Regrouped u := fun u hu => ih u (hparts u hu)
    refine .node (.refl (fun _ => rfl) (fun u hu => hsame u (t.mem_parts_of_mem_inner hu)) hsame ?_)
    intro u hu
    refine .refl ?_
    rintro params body rfl
    have hlambda := hparts _ hu
    rw [Tree.height] at hlambda
    exact ih body (Nat.le_of_succ_le hlambda)

/-- Rows related item by item, where only the items of the second row matter. -/
theorem forall₂_imp_of_mem {α β : Type} {R R' : α → β → Prop} {xs : List α} {ys : List β}
    (h : List.Forall₂ R xs ys) (himp : ∀ x, ∀ y ∈ ys, R x y → R' x y) : List.Forall₂ R' xs ys := by
  induction h with
  | nil => exact .nil
  | cons hxy _ ih =>
    refine .cons (himp _ _ List.mem_cons_self hxy) (ih fun x y hy => ?_)
    exact himp x y (List.mem_cons_of_mem _ hy)

/-- The inner parts of trees of one construct may be related otherwise. -/
theorem Tree.Like.imp_inner {binds binds' : Bool} {P P' Q B : Tree → Tree → Prop} {t t' : Tree}
    (h : t.Like binds P Q B t') (hbind : t'.isBind = true → binds' = true)
    (himp : ∀ u, ∀ u' ∈ t'.inner, P u u' → P' u u') : t.Like binds' P' Q B t' := by
  cases h with
  | literal v => exact .literal v
  | context => exact .context
  | root => exact .root
  | field name => exact .field name
  | var name => exact .var name
  | builtin f => exact .builtin f
  | path h => exact .path (forall₂_imp_of_mem h himp)
  | filter hbase hpredicate =>
    exact .filter (himp _ _ (by simp [inner, parts]) hbase)
      (himp _ _ (by simp [inner, parts]) hpredicate)
  | binary op hl hr =>
    exact .binary op (himp _ _ (by simp [inner, parts]) hl) (himp _ _ (by simp [inner, parts]) hr)
  | negate h => exact .negate (himp _ _ (by simp [inner, parts]) h)
  | condition htest hyes hno =>
    refine .condition (himp _ _ (by simp [inner, parts]) htest)
      (himp _ _ (by simp [inner, parts]) hyes) ?_
    cases hno with
    | none => exact .none
    | some hno => exact .some (himp _ _ (by simp [inner, parts]) hno)
  | array h => exact .array (forall₂_imp_of_mem h himp)
  | @object entries entries' h =>
    have hmem : ∀ e ∈ entries',
        e.1 ∈ (Tree.object entries').inner ∧ e.2 ∈ (Tree.object entries').inner :=
      forall_mem_parts_object.1 fun _ hu => hu
    refine .object (forall₂_imp_of_mem h ?_)
    rintro _ e he ⟨hkey, hvalue⟩
    exact .mk (himp _ _ (hmem _ he).1 hkey) (himp _ _ (hmem _ he).2 hvalue)
  | block h => exact .block h
  | bind _ name h hfunction =>
    exact .bind (hbind rfl) name (himp _ _ (by simp [inner, parts]) h) hfunction
  | lambda params h => exact .lambda params h
  | call hcallee hargs hfunctions position =>
    refine .call hcallee (forall₂_imp_of_mem hargs fun u u' hu' => ?_) hfunctions position
    exact himp u u' (List.mem_cons_of_mem _ hu')

/-! ## Frames on a stack -/

/-- A place on the stack of the open frames of two evaluations. -/
inductive Place
  /-- A frame of each evaluation. -/
  | both (i j : FrameId)
  /-- The frame of a group that the first evaluation has for itself. -/
  | group (i : FrameId)

namespace Place

/-- The frame of the first evaluation. -/
def first : Place → FrameId
  | .both i _ | .group i => i

/-- The frame of the second evaluation, if it has one. -/
def second? : Place → Option FrameId
  | .both _ j => some j
  | .group _ => none

end Place

variable {w w' : List Place} {s s' : Scope} {a b a' b' : Frames}

/-- The first scope is the second, with frames of groups between. -/
inductive Scope.Regrouped (w : List Place) : Scope → Scope → Prop
  | nil : Regrouped w [] []
  | both {i j : FrameId} {s s' : Scope} (h : .both i j ∈ w) (hs : Regrouped w s s') :
      Regrouped w (i :: s) (j :: s')
  | group {i : FrameId} {s s' : Scope} (h : .group i ∈ w) (hs : Regrouped w s s') :
      Regrouped w (i :: s) s'

theorem Scope.Regrouped.mono (h : Scope.Regrouped w s s') (hw : w ⊆ w') :
    Scope.Regrouped w' s s' := by
  induction h with
  | nil => exact .nil
  | both h _ ih => exact .both (hw h) ih
  | group h _ ih => exact .group (hw h) ih

/-- The same value, or the same function up to groups. -/
abbrev Binding.Regrouped (w : List Place) : Binding → Binding → Prop :=
  Binding.Alike (Scope.Regrouped w) Tree.Regrouped

/-- The same names, bound to the same up to groups. -/
abbrev RegroupedBindings (w : List Place) :
    List (String × Binding) → List (String × Binding) → Prop :=
  List.Forall₂ fun x y => x.1 = y.1 ∧ Binding.Regrouped w x.2 y.2

theorem RegroupedBindings.mono {bs bs' : List (String × Binding)} (h : RegroupedBindings w bs bs')
    (hw : w ⊆ w') : RegroupedBindings w' bs bs' :=
  List.Forall₂.imp (fun _ _ hxy => ⟨hxy.1, hxy.2.mono fun hs => hs.mono hw⟩) h

/-- The frames of two evaluations are on a stack: partners bind the same names to bindings that
are the same up to groups, in function values that see no frames above them, and the frames of
groups bind nothing. -/
inductive Stacked (a b : Frames) : List Place → Prop
  | nil : Stacked a b []
  | both {i j : FrameId} {w : List Place} {f g : Frame} (below : Stacked a b w)
      (fresh₁ : ∀ p ∈ w, p.first ≠ i) (fresh₂ : ∀ p ∈ w, p.second? ≠ some j)
      (frame₁ : a[i]? = some f) (frame₂ : b[j]? = some g)
      (bindings : RegroupedBindings (.both i j :: w) f.bindings g.bindings) :
      Stacked a b (.both i j :: w)
  | group {i : FrameId} {w : List Place} {f : Frame} (below : Stacked a b w)
      (fresh₁ : ∀ p ∈ w, p.first ≠ i) (frame₁ : a[i]? = some f) (empty : f.bindings = []) :
      Stacked a b (.group i :: w)

namespace Stacked

/-- Partners bind the same names. -/
theorem of_both_mem (h : Stacked a b w) {i j : FrameId} (hmem : .both i j ∈ w) :
    ∃ f g, a[i]? = some f ∧ b[j]? = some g ∧ RegroupedBindings w f.bindings g.bindings := by
  induction h with
  | nil => cases hmem
  | @both i' j' w f g _ _ _ frame₁ frame₂ bindings ih =>
    rcases List.mem_cons.1 hmem with heq | hmem
    · cases heq
      exact ⟨f, g, frame₁, frame₂, bindings⟩
    · obtain ⟨f, g, hf, hg, hfg⟩ := ih hmem
      exact ⟨f, g, hf, hg, hfg.mono (List.subset_cons_self _ _)⟩
  | @group i' w f _ _ _ _ ih =>
    rcases List.mem_cons.1 hmem with heq | hmem
    · cases heq
    · obtain ⟨f, g, hf, hg, hfg⟩ := ih hmem
      exact ⟨f, g, hf, hg, hfg.mono (List.subset_cons_self _ _)⟩

/-- The frame of a group binds nothing. -/
theorem of_group_mem (h : Stacked a b w) {i : FrameId} (hmem : .group i ∈ w) :
    ∃ f, a[i]? = some f ∧ f.bindings = [] := by
  induction h with
  | nil => cases hmem
  | both _ _ _ _ _ _ ih =>
    rcases List.mem_cons.1 hmem with heq | hmem
    · cases heq
    · exact ih hmem
  | @group i' w f _ _ frame₁ empty ih =>
    rcases List.mem_cons.1 hmem with heq | hmem
    · cases heq
      exact ⟨f, frame₁, empty⟩
    · exact ih hmem

/-- Only the frames on the stack matter. -/
theorem congr (h : Stacked a b w) (ha : ∀ p ∈ w, a'[p.first]? = a[p.first]?)
    (hb : ∀ p ∈ w, ∀ j, p.second? = some j → b'[j]? = b[j]?) : Stacked a' b' w := by
  induction h with
  | nil => exact .nil
  | both _ fresh₁ fresh₂ frame₁ frame₂ bindings ih =>
    obtain ⟨ha, has⟩ := List.forall_mem_cons.1 ha
    obtain ⟨hb, hbs⟩ := List.forall_mem_cons.1 hb
    exact .both (ih has hbs) fresh₁ fresh₂ (ha.trans frame₁) ((hb _ rfl).trans frame₂) bindings
  | group _ fresh₁ frame₁ empty ih =>
    obtain ⟨ha, has⟩ := List.forall_mem_cons.1 ha
    exact .group (ih has (List.forall_mem_cons.1 hb).2) fresh₁ (ha.trans frame₁) empty

theorem lt_size₁ (h : Stacked a b w) : ∀ p ∈ w, p.first < a.size := by
  induction h with
  | nil => exact List.forall_mem_nil _
  | both _ _ _ frame₁ _ _ ih =>
    exact List.forall_mem_cons.2 ⟨(Array.getElem?_eq_some_iff.1 frame₁).1, ih⟩
  | group _ _ frame₁ _ ih =>
    exact List.forall_mem_cons.2 ⟨(Array.getElem?_eq_some_iff.1 frame₁).1, ih⟩

theorem lt_size₂ (h : Stacked a b w) : ∀ p ∈ w, ∀ j, p.second? = some j → j < b.size := by
  induction h with
  | nil => exact List.forall_mem_nil _
  | both _ _ _ _ frame₂ _ ih =>
    refine List.forall_mem_cons.2 ⟨?_, ih⟩
    rintro _ ⟨⟩
    exact (Array.getElem?_eq_some_iff.1 frame₂).1
  | group _ _ _ _ ih =>
    refine List.forall_mem_cons.2 ⟨?_, ih⟩
    rintro _ ⟨⟩

/-- Two frames are opened together. -/
theorem push (h : Stacked a b w) {bs bs' : List (String × Binding)}
    (hbs : RegroupedBindings w bs bs') :
    Stacked (a.push { bindings := bs }) (b.push { bindings := bs' })
      (.both a.size b.size :: w) := by
  refine .both (h.congr ?_ ?_) (fun p hp => Nat.ne_of_lt (h.lt_size₁ p hp)) ?_
    Array.getElem?_push_size Array.getElem?_push_size (hbs.mono (List.subset_cons_self _ _))
  · intro p hp
    rw [Array.getElem?_push, if_neg (Nat.ne_of_lt (h.lt_size₁ p hp))]
  · intro p hp j hj
    rw [Array.getElem?_push, if_neg (Nat.ne_of_lt (h.lt_size₂ p hp j hj))]
  · exact fun p hp hj => Nat.lt_irrefl _ (h.lt_size₂ p hp _ hj)

/-- The first evaluation opens the frame of a group. -/
theorem push_group (h : Stacked a b w) : Stacked (a.push {}) b (.group a.size :: w) := by
  refine .group (h.congr ?_ fun _ _ _ _ => rfl) (fun p hp => Nat.ne_of_lt (h.lt_size₁ p hp))
    Array.getElem?_push_size rfl
  intro p hp
  rw [Array.getElem?_push, if_neg (Nat.ne_of_lt (h.lt_size₁ p hp))]

/-- The topmost frames can be changed in any way if the stack goes on without them. -/
theorem pop {i j : FrameId} (h : Stacked a b (.both i j :: w)) (p q : Frame → Frame) :
    Stacked (a.modify i p) (b.modify j q) w := by
  cases h with
  | both below fresh₁ fresh₂ =>
    refine below.congr (fun p hp => ?_) fun p hp j' hj' => ?_
    · rw [Array.getElem?_modify, if_neg (fresh₁ p hp).symm]
    · rw [Array.getElem?_modify, if_neg]
      rintro rfl
      exact fresh₂ p hp hj'

theorem pop_group {i : FrameId} (h : Stacked a b (.group i :: w)) (p : Frame → Frame) :
    Stacked (a.modify i p) b w := by
  cases h with
  | group below fresh₁ =>
    refine below.congr (fun p hp => ?_) fun _ _ _ _ => rfl
    rw [Array.getElem?_modify, if_neg (fresh₁ p hp).symm]

/-- The topmost frames get one more binding each. -/
theorem bind {i j : FrameId} (h : Stacked a b (.both i j :: w)) (name : String) {v v' : Binding}
    (hv : Binding.Regrouped (.both i j :: w) v v') :
    Stacked (a.modify i fun f => { f with bindings := (name, v) :: f.bindings })
      (b.modify j fun g => { g with bindings := (name, v') :: g.bindings }) (.both i j :: w) := by
  have hpop := h.pop (fun f => { f with bindings := (name, v) :: f.bindings })
    (fun g => { g with bindings := (name, v') :: g.bindings })
  cases h with
  | @both _ _ _ f g _ fresh₁ fresh₂ frame₁ frame₂ bindings =>
    refine .both (f := { f with bindings := (name, v) :: f.bindings })
      (g := { g with bindings := (name, v') :: g.bindings }) hpop fresh₁ fresh₂ ?_ ?_
      (.cons ⟨rfl, hv⟩ bindings)
    · rw [Array.getElem?_modify, if_pos rfl, frame₁]
      rfl
    · rw [Array.getElem?_modify, if_pos rfl, frame₂]
      rfl

/-- A name is bound to the same up to groups. -/
theorem lookup (h : Stacked a b w) (hs : Scope.Regrouped w s s') (name : String) :
    Option.Rel (Binding.Regrouped w) (Eval.lookup? a s name) (Eval.lookup? b s' name) := by
  induction hs with
  | nil => exact .none
  | both hmem _ ih =>
    obtain ⟨f, g, hf, hg, hfg⟩ := h.of_both_mem hmem
    exact Eval.rel_lookup?_cons hf hg (Binding.rel_lookup hfg name) ih
  | group hmem _ ih =>
    -- nothing is found in the frame of a group, so the look-up goes on behind it
    obtain ⟨f, hf, hempty⟩ := h.of_group_mem hmem
    rw [Eval.lookup?, List.findSome?_cons, hf, Option.bind_some, hempty]
    exact ih

end Stacked

/-! ## Evaluations with more groups -/

variable {α β γ δ : Type} {R : α → β → Prop} {S : γ → δ → Prop}

/-- Two outcomes: related results and frames on a stack, or the same error, or the first
evaluation is nested too deep. -/
inductive Stacked.Outcome (w : List Place) (R : α → β → Prop) :
    Except EvalError (α × Frames) → Except EvalError (β × Frames) → Prop
  | ok {x : α} {y : β} {a b : Frames} (hxy : R x y) (hab : Stacked a b w) :
      Outcome w R (.ok (x, a)) (.ok (y, b))
  | error (e : EvalError) : Outcome w R (.error e) (.error e)
  | tooDeep (o : Except EvalError (β × Frames)) : Outcome w R (.error .nestedTooDeep) o

/-- From frames on a stack, the computations come to outcomes with frames on the stack. -/
def KeepStack (w : List Place) (R : α → β → Prop) (c : Eval α) (c' : Eval β) : Prop :=
  ∀ a b, Stacked a b w → Stacked.Outcome w R (c.run a) (c'.run b)

namespace KeepStack

variable {c : Eval α} {c' : Eval β}

theorem bind {f : α → Eval γ} {f' : β → Eval δ} (hc : KeepStack w R c c')
    (hf : ∀ x y, R x y → KeepStack w S (f x) (f' y)) : KeepStack w S (c >>= f) (c' >>= f') := by
  intro a b hab
  have houtcome := hc a b hab
  rw [StateT.run_bind, StateT.run_bind]
  generalize c.run a = o at houtcome
  generalize c'.run b = o' at houtcome
  cases houtcome with
  | ok hxy hab' => exact hf _ _ hxy _ _ hab'
  | error e => exact .error e
  | tooDeep => exact .tooDeep _

/-- Two frames are opened, and closed when what is computed in them is over. -/
theorem inFrame {clearing clearing' : Bool} {bs bs' : List (String × Binding)}
    {body body' : Scope → Eval Value} (hs : Scope.Regrouped w s s')
    (hbs : RegroupedBindings w bs bs')
    (hbody : ∀ i j, Scope.Regrouped (.both i j :: w) s s' →
      KeepStack (.both i j :: w) Eq (body (i :: s)) (body' (j :: s'))) :
    KeepStack w Eq (Eval.inFrame clearing { bindings := bs } s body)
      (Eval.inFrame clearing' { bindings := bs' } s' body') := by
  intro a b hab
  have hinner := hbody a.size b.size (hs.mono (List.subset_cons_self _ _)) _ _ (hab.push hbs)
  show Stacked.Outcome w Eq
    ((body (a.size :: s)).run (a.push { bindings := bs }) >>= fun r =>
      .ok (r.1, r.2.modify a.size _))
    ((body' (b.size :: s')).run (b.push { bindings := bs' }) >>= fun r =>
      .ok (r.1, r.2.modify b.size _))
  generalize (body (a.size :: s)).run (a.push { bindings := bs }) = o at hinner
  generalize (body' (b.size :: s')).run (b.push { bindings := bs' }) = o' at hinner
  cases hinner with
  | ok hxy hab' => exact .ok hxy (hab'.pop _ _)
  | error e => exact .error e
  | tooDeep => exact .tooDeep _

/-- The first evaluation opens the frame of a group, which the second one does without. -/
theorem inGroup {clearing : Bool} {body : Scope → Eval Value} {c' : Eval Value}
    (hs : Scope.Regrouped w s s')
    (hbody : ∀ i, Scope.Regrouped (.group i :: w) (i :: s) s' →
      KeepStack (.group i :: w) Eq (body (i :: s)) c') :
    KeepStack w Eq (Eval.inFrame clearing {} s body) c' := by
  intro a b hab
  have hscope : Scope.Regrouped (.group a.size :: w) (a.size :: s) s' :=
    .group List.mem_cons_self (hs.mono (List.subset_cons_self _ _))
  have hinner := hbody a.size hscope _ _ hab.push_group
  show Stacked.Outcome w Eq
    ((body (a.size :: s)).run (a.push {}) >>= fun r => .ok (r.1, r.2.modify a.size _)) _
  generalize (body (a.size :: s)).run (a.push {}) = o at hinner
  generalize c'.run b = o' at hinner
  cases hinner with
  | ok hxy hab' => exact .ok hxy (hab'.pop_group _)
  | error e => exact .error e
  | tooDeep => exact .tooDeep _

/-- The relation between evaluations with more groups and with fewer.  Names are bound in the
topmost frames, and not in that of a group. -/
def congruence : Congruence Eval Eval where
  World := List Place
  sees := Scope.Regrouped
  bodies := Tree.Regrouped
  scopes binds w s s' := Scope.Regrouped w s s' ∧ (binds = true →
    ∃ i j w₀ s₀ s₀', w = .both i j :: w₀ ∧ s = i :: s₀ ∧ s' = j :: s₀')
  frames w a b := Stacked a b w
  clears _ _ := True
  rel w R := KeepStack w R
  sees_of_scopes h := h.1
  lookup hab hs := hab.lookup hs
  pure hxy _ _ hab := .ok hxy hab
  bind := .bind
  throw _ _ _ _ := .error _
  lift {_ _ x} _ _ _ hab := by
    cases x with
    | ok v => exact .ok rfl hab
    | error e => exact .error e
  get _ _ hab := .ok hab hab
  note name hs hv _ _ hab := by
    obtain ⟨i, j, w, s, s', rfl, rfl, rfl⟩ := hs.2 rfl
    exact .ok rfl (hab.bind name hv)
  inFrame _ hs hbs hbody := by
    refine inFrame hs hbs fun i j hs => hbody _ i j ⟨.both List.mem_cons_self hs, fun _ => ?_⟩
    exact ⟨i, j, _, _, _, rfl, rfl, rfl⟩

end KeepStack

/-- **The evaluation of a tree with more groups keeps the stack beside that of the tree**, if there
are no more levels for the former than for the latter. -/
theorem keepStack_eval (input : Json) (now : String) (clearing clearing' : Bool)
    {least limit : Nat} (hle : least ≤ limit) {t t' : Tree} (h : t.Regrouped t') {binds : Bool}
    (ht : binds = true ∨ t'.Confined) {w : List Place} {s s' : Scope}
    (hs : KeepStack.congruence.scopes binds w s s') :
    KeepStack.congruence.Relates w s s' (eval ⟨input, now, clearing⟩ least)
      (eval ⟨input, now, clearing'⟩ limit) t t' := by
  -- on the levels of the first evaluation, which a group uses up and the second one need not
  induction least generalizing limit t t' binds w s s' with
  | zero => exact fun context a b hab => .tooDeep _
  | succ least ih =>
    cases h with
    | node h =>
      obtain ⟨limit, rfl⟩ : ∃ n, limit = n + 1 := ⟨limit - 1, by omega⟩
      have hle := Nat.le_of_succ_le_succ hle
      refine KeepStack.congruence.rel_evalNode (Q := Tree.Regrouped) trivial ?_ hs ?_
        (h.imp_inner ?_ ?_)
      · exact fun hbody _ _ _ hs => ih hle hbody (Or.inl rfl) hs
      · exact fun hs hu => ih hle hu (Or.inl rfl) hs
      · intro hbind
        rcases ht with hbinds | ⟨hnot, -⟩
        · exact hbinds
        · rw [hnot] at hbind
          cases hbind
      · intro u u' hu' hu
        rcases ht with hbinds | ⟨-, hinner⟩
        · exact ih hle hu (Or.inl hbinds) hs
        · exact ih hle hu (Or.inr (hinner u' hu')) hs
    | @group u _ h hconfined =>
      intro context
      refine KeepStack.inGroup hs.1 fun i hscope => ?_
      -- no name can be bound in the frame of the group, and none has to be
      have hscopes : KeepStack.congruence.scopes false (.group i :: w) (i :: s) s' :=
        ⟨hscope, fun hbinds => absurd hbinds Bool.false_ne_true⟩
      have hitem := ih (Nat.le_of_succ_le hle) h (Or.inr hconfined) hscopes context
      show KeepStack _ Eq (eval ⟨input, now, clearing⟩ least u context (i :: s) >>= pure) _
      rwa [bind_pure]

/-- At the beginning there is one frame, and nothing in it. -/
theorem stacked_new : Stacked #[{}] #[{}] [.both 0 0] :=
  .both .nil (List.forall_mem_nil _) (List.forall_mem_nil _) rfl rfl .nil

/-- **Groups of confined items can be dropped.**  They need levels of their own, and make no
difference but for that. -/
theorem evaluate_of_regrouped (setting : Setting) {least limit : Nat} (hle : least ≤ limit)
    {t t' : Tree} (h : t.Regrouped t') (hne : evaluate setting least t ≠ .error .nestedTooDeep) :
    evaluate setting limit t' = evaluate setting least t := by
  obtain ⟨input, now, clearing⟩ := setting
  have hscopes : KeepStack.congruence.scopes true [.both 0 0] [0] [0] :=
    ⟨.both List.mem_cons_self .nil, fun _ => ⟨0, 0, [], [], [], rfl, rfl, rfl⟩⟩
  have hrelates := keepStack_eval input now clearing clearing hle h (Or.inl rfl) hscopes
  have houtcome := hrelates (some input) _ _ stacked_new
  unfold evaluate at hne ⊢
  generalize (eval ⟨input, now, clearing⟩ least t (some input) [0]).run #[{}] = o
    at houtcome hne
  generalize (eval ⟨input, now, clearing⟩ limit t' (some input) [0]).run #[{}] = o' at houtcome
  cases houtcome with
  | ok hxy => exact congrArg Except.ok hxy.symm
  | error e => rfl
  | tooDeep => exact absurd rfl hne

/-! ## Groups in parentheses -/

/-- **Groups keep variables.**  A group in parentheses is the block of its items, unless there is
one item that is no binding itself; then it is that item.  Evaluating it changes no frame that
was there before but the innermost of its scope.  If its bindings are confined, as those of a
block are, it changes no variable outside: in every scope of frames that were there before, every
name means what it meant before.  Then it is also as good as the block of its items: whatever
blocks are kept around items with confined bindings in a tree, the outcome is the same if there
are levels enough for them. -/
theorem groups_keep_variables (setting : Setting) :
    (∀ {expr : Nat → Parser Tree} {s s' : ParseState} {t : Tree},
      (Parser.block expr).run s = .ok (t, s') →
        ∃ items s'', (Parser.blockFrom expr (s.later.length + 2) []).run s = .ok (items, s'')
          ∧ (t = .block items ∧ t.Confined ∨ items = [t] ∧ t.isBind = false)
          ∧ (t.Confined → (Tree.block items).Regrouped t)
          ∧ ∀ depth context scope frames v frames',
            (eval setting depth t context scope).run frames = .ok (v, frames') →
              (∀ i < frames.size, scope.head? ≠ some i → frames'[i]? = frames[i]?)
                ∧ (t.Confined → ∀ outer : Scope, (∀ i ∈ outer, i < frames.size) → ∀ name,
                  Eval.lookup? frames' outer name = Eval.lookup? frames outer name))
      ∧ ∀ {t t' : Tree} {least limit : Nat}, t.Regrouped t' → least ≤ limit →
        evaluate setting least t ≠ .error .nestedTooDeep →
          evaluate setting limit t' = evaluate setting least t := by
  constructor
  · intro expr s s' t hparse
    obtain ⟨items, s'', hitems, hgroup⟩ := Parser.after_block_items expr s t s' hparse
    refine ⟨items, s'', hitems, ?_, ?_, ?_⟩
    · rcases hgroup with rfl | hitem
      · exact Or.inl ⟨rfl, Tree.confined_block items⟩
      · exact Or.inr hitem
    · intro hconfined
      rcases hgroup with rfl | ⟨rfl, -⟩
      · exact .refl _
      · exact .group (.refl t) hconfined
    · intro depth context scope frames v frames' hrun
      refine ⟨fun i hi hscope => ?_, fun hconfined outer houter name => ?_⟩
      · exact spared_of_eval (Or.inl rfl) hrun i hi fun _ => hscope
      · exact hconfined.keeps_variables hrun houter name
  · intro t t' least limit h hle hne
    exact evaluate_of_regrouped setting hle h hne

/-- The group `($x := a)` is a block, and behind it `$x` is what it was before.  Whether a block
is kept around the first operand of `(a) = a` or not, what is undefined equals nothing. -/
theorem bound_in_a_group_is_not_seen_behind_it :
    (∃ s', (Parser.block (Parser.below 3 3)).run
        ⟨⟨.var "x", 1⟩, [⟨.symbol .bind, 4⟩, ⟨.name "a", 7⟩, ⟨.symbol .closeParen, 8⟩,
          ⟨.done, 9⟩], []⟩ = .ok (.block [.bind "x" (.field "a")], s')
      ∧ ∃ frames', (eval ⟨.null, "", true⟩ 3 (.block [.bind "x" (.field "a")]) none [0]).run
          #[{ bindings := [("x", .value (some .null))] }] = .ok (none, frames')
        ∧ Eval.lookup? frames' [0] "x" = some (.value (some .null)))
    ∧ ((Tree.binary .equal (.block [.field "a"]) (.field "a")).Regrouped
        (.binary .equal (.field "a") (.field "a"))
      ∧ 3 ≤ maxDepth
      ∧ evaluate ⟨.null, "", true⟩ 3 (.binary .equal (.block [.field "a"]) (.field "a")) =
          .ok (some (.bool false))
      ∧ evaluate ⟨.null, "", true⟩ maxDepth (.binary .equal (.field "a") (.field "a")) =
          .ok (some (.bool false))) := by
  constructor
  · have hparse : (Parser.block (Parser.below 3 3)).run
        ⟨⟨.var "x", 1⟩, [⟨.symbol .bind, 4⟩, ⟨.name "a", 7⟩, ⟨.symbol .closeParen, 8⟩,
          ⟨.done, 9⟩], []⟩ =
        .ok (.block [.bind "x" (.field "a")], ⟨⟨.done, 9⟩, [], ["x"]⟩) := rfl
    obtain ⟨items, s'', -, -, -, hkeeps⟩ := (groups_keep_variables ⟨.null, "", true⟩).1 hparse
    obtain ⟨frames', hrun⟩ : ∃ frames',
        (eval ⟨.null, "", true⟩ 3 (.block [.bind "x" (.field "a")]) none [0]).run
          #[{ bindings := [("x", .value (some .null))] }] = .ok (none, frames') := ⟨_, rfl⟩
    refine ⟨_, hparse, frames', hrun, ?_⟩
    exact (hkeeps _ _ _ _ _ _ hrun).2 (Tree.confined_block _) [0] (by simp) "x"
  · have hfield : (Tree.field "a").Confined := .of_inner rfl (List.forall_mem_nil _)
    have hregrouped : (Tree.binary .equal (.block [.field "a"]) (.field "a")).Regrouped
        (.binary .equal (.field "a") (.field "a")) :=
      .node (.binary .equal (.group (.refl _) hfield) (.refl _))
    have hle : 3 ≤ maxDepth := by decide
    have hvalue : evaluate ⟨.null, "", true⟩ 3
        (.binary .equal (.block [.field "a"]) (.field "a")) = .ok (some (.bool false)) := rfl
    refine ⟨hregrouped, hle, hvalue, ?_⟩
    rw [← hvalue]
    exact (groups_keep_variables ⟨.null, "", true⟩).2 hregrouped hle (by simp [hvalue])

/-- Whether a tree binds `$x` to one, to two inside the items of an array, and then yields
it. -/
def Tree.bindsInArray : Tree → Bool
  | .block [.bind name (.literal (.number (.whole one _))),
      .array [.bind name' (.literal (.number (.whole two _)))], .var name''] =>
    name == "x" && name' == "x" && name'' == "x" && one == 1 && two == 2
  | _ => false

/-- A group of one array is no block, so a binding in the array is seen behind the group: the
variable is two there, on every document.  If the block were kept it would be one. -/
theorem bound_in_an_array_is_seen_behind_its_group : ∃ hone htwo,
    compileTree "($x := 1; ([$x := 2]); $x)" =
        .ok (.block [.bind "x" (.literal (.number (.whole 1 hone))),
          .array [.bind "x" (.literal (.number (.whole 2 htwo)))], .var "x"])
      ∧ ∀ now input,
        result now (.block [.bind "x" (.literal (.number (.whole 1 hone))),
          .array [.bind "x" (.literal (.number (.whole 2 htwo)))], .var "x"]) input =
            .ok (.number (.whole 2 htwo))
        ∧ result now (.block [.bind "x" (.literal (.number (.whole 1 hone))),
          .block [.array [.bind "x" (.literal (.number (.whole 2 htwo)))]], .var "x"]) input =
            .ok (.number (.whole 1 hone)) := by
  have hshape : (compileTree "($x := 1; ([$x := 2]); $x)").toOption.map Tree.bindsInArray =
      some true := by
    decide +kernel
  cases h : compileTree "($x := 1; ([$x := 2]); $x)" with
  | error f =>
    rw [h] at hshape
    cases hshape
  | ok t =>
    rw [h, Except.toOption, Option.map_some, Option.some_inj] at hshape
    unfold Tree.bindsInArray at hshape
    split at hshape
    · rename_i name one hone name' two htwo name''
      simp only [Bool.and_eq_true, beq_iff_eq] at hshape
      obtain ⟨⟨⟨⟨rfl, rfl⟩, rfl⟩, rfl⟩, rfl⟩ := hshape
      exact ⟨hone, htwo, rfl, fun now input => ⟨rfl, rfl⟩⟩
    · cases hshape

end Reshape.Expression
