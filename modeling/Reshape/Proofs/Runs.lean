/-
# Two evaluations side by side

Two evaluations of one tree are followed together.  Their frames need not be the same:
each frame that is open in one has a partner in the other, and the open frames, in pairs,
are a stack (`World`).  The frames *stand* (`Stands`) if all of these are open and if
partners have the same bindings, where function values may see only frames that lie at or
below the one they are bound in.  This is what makes a frame outlive the function values
that see it: when the topmost frame is closed, no other one leads to it.

Computations *match* (`Matches`) if from frames that stand they come to the same value, and
the frames stand again, or to the same error.  Matching is a congruence, so it goes through
every construct of the language (`matches_evalNode`), and whoever compares two evaluators need
only compare what they do about depth.
-/
import Mathlib.Tactic
import Reshape.Proofs.Congruence

namespace Reshape.Expression

/-! ## Frames that stand -/

/-- The open frames of two runs in pairs, the innermost first. -/
abbrev World := List (FrameId × FrameId)

/-- What is compared: the bodies that function values may have, whether the runs may be
nested too deep, and whether nothing more is promised of the second if the first one is. -/
structure Comparison where
  bodies : Tree → Prop := fun _ => True
  deep : Prop := True
  excused : Prop := False

variable {k : Comparison} {w w' : World}

/-- Two scopes of the frames of a world, pair by pair. -/
def Scope.Related (w : World) (s s' : Scope) : Prop := List.Forall₂ (fun i j => (i, j) ∈ w) s s'

theorem Scope.Related.mono {s s' : Scope} (h : Scope.Related w s s') (hw : w ⊆ w') :
    Scope.Related w' s s' :=
  List.Forall₂.imp (fun _ _ hmem => hw hmem) h

/-- The topmost frames are related, so they can be the innermost of related scopes. -/
theorem Scope.Related.enter {i j : FrameId} {s s' : Scope}
    (h : Scope.Related ((i, j) :: w) s s') :
    Scope.Related ((i, j) :: w) (i :: s) (j :: s') :=
  .cons List.mem_cons_self h

/-- The same function value in scopes that are related. -/
inductive Callable.Related (k : Comparison) (w : World) : Callable → Callable → Prop
  | builtin (f : Builtin) : Related k w (.builtin f) (.builtin f)
  | lambda {params : List String} {body : Tree} {s s' : Scope} (hbody : k.bodies body)
      (hscope : Scope.Related w s s') :
      Related k w (.lambda params body s) (.lambda params body s')

theorem Callable.Related.mono {c c' : Callable} (h : Callable.Related k w c c') (hw : w ⊆ w') :
    Callable.Related k w' c c' := by
  cases h with
  | builtin f => exact .builtin f
  | lambda hbody hscope => exact .lambda hbody (hscope.mono hw)

/-- The same value, or related function values. -/
inductive Binding.Related (k : Comparison) (w : World) : Binding → Binding → Prop
  | value (v : Value) : Related k w (.value v) (.value v)
  | function {c c' : Callable} (h : Callable.Related k w c c') :
      Related k w (.function c) (.function c')

namespace Binding.Related

variable {b b' : Binding}

theorem mono (h : Binding.Related k w b b') (hw : w ⊆ w') : Binding.Related k w' b b' := by
  cases h with
  | value v => exact .value v
  | function h => exact .function (h.mono hw)

end Binding.Related

/-- Two frames that are open, with the same names bound to related values. -/
structure Frame.Related (k : Comparison) (w : World) (f g : Frame) : Prop where
  open₁ : f.closed = false
  open₂ : g.closed = false
  bindings : List.Forall₂ (fun x y => x.1 = y.1 ∧ Binding.Related k w x.2 y.2)
    f.bindings g.bindings

namespace Frame.Related

variable {f g : Frame}

theorem mono (h : Frame.Related k w f g) (hw : w ⊆ w') : Frame.Related k w' f g :=
  ⟨h.open₁, h.open₂, h.bindings.imp fun _ _ hxy => ⟨hxy.1, hxy.2.mono hw⟩⟩

/-- A name is bound in both frames, or in neither. -/
theorem lookup (h : Frame.Related k w f g) (name : String) :
    Option.Rel (Binding.Related k w) (f.bindings.lookup name) (g.bindings.lookup name) :=
  Binding.rel_lookup h.bindings name

end Frame.Related

/-- The frames of two runs stand in a world: each pair of it is a pair of frames of their
own, both of them open, whose function values see no frames above them. -/
inductive Stands (k : Comparison) (a b : Frames) : World → Prop
  | nil : Stands k a b []
  | cons {i j : FrameId} {w : World} {f g : Frame} (below : Stands k a b w)
      (fresh₁ : i ∉ w.map Prod.fst) (fresh₂ : j ∉ w.map Prod.snd)
      (frame₁ : a[i]? = some f) (frame₂ : b[j]? = some g)
      (related : Frame.Related k ((i, j) :: w) f g) : Stands k a b ((i, j) :: w)

namespace Stands

variable {a b a' b' : Frames}

/-- The frames of a pair, and how they are related. -/
theorem frame (h : Stands k a b w) {i j : FrameId} (hmem : (i, j) ∈ w) :
    ∃ f g, a[i]? = some f ∧ b[j]? = some g ∧ Frame.Related k w f g := by
  induction h with
  | nil => cases hmem
  | @cons i' j' w f g below _ _ frame₁ frame₂ related ih =>
    rcases List.mem_cons.1 hmem with heq | hmem
    · cases heq
      exact ⟨f, g, frame₁, frame₂, related⟩
    · obtain ⟨f, g, hf, hg, hfg⟩ := ih hmem
      exact ⟨f, g, hf, hg, hfg.mono (List.subset_cons_self _ _)⟩

/-- Only the frames of its world matter for whether frames stand. -/
theorem congr (h : Stands k a b w) (ha : ∀ i ∈ w.map Prod.fst, a'[i]? = a[i]?)
    (hb : ∀ j ∈ w.map Prod.snd, b'[j]? = b[j]?) : Stands k a' b' w := by
  induction h with
  | nil => exact .nil
  | @cons i j w f g _ fresh₁ fresh₂ frame₁ frame₂ related ih =>
    simp only [List.map_cons, List.forall_mem_cons] at ha hb
    exact .cons (ih ha.2 hb.2) fresh₁ fresh₂ (ha.1.trans frame₁) (hb.1.trans frame₂) related

theorem lt_size (h : Stands k a b w) {i j : FrameId} (hmem : (i, j) ∈ w) :
    i < a.size ∧ j < b.size := by
  obtain ⟨f, g, hf, hg, -⟩ := h.frame hmem
  exact ⟨(Array.getElem?_eq_some_iff.1 hf).1, (Array.getElem?_eq_some_iff.1 hg).1⟩

theorem lt_size₁ (h : Stands k a b w) {i : FrameId} (hmem : i ∈ w.map Prod.fst) :
    i < a.size := by
  obtain ⟨⟨i, j⟩, hij, rfl⟩ := List.mem_map.1 hmem
  exact (h.lt_size hij).1

theorem lt_size₂ (h : Stands k a b w) {j : FrameId} (hmem : j ∈ w.map Prod.snd) :
    j < b.size := by
  obtain ⟨⟨i, j⟩, hij, rfl⟩ := List.mem_map.1 hmem
  exact (h.lt_size hij).2

/-- Frames that stand do so with more bodies. -/
theorem imp {k' : Comparison} (h : Stands k a b w) (hbodies : ∀ t, k.bodies t → k'.bodies t) :
    Stands k' a b w := by
  have hbinding : ∀ {w : World} {x y : Binding}, Binding.Related k w x y →
      Binding.Related k' w x y := by
    rintro w _ _ (v | (f | ⟨hbody, hscope⟩))
    · exact .value v
    · exact .function (.builtin f)
    · exact .function (.lambda (hbodies _ hbody) hscope)
  induction h with
  | nil => exact .nil
  | cons _ fresh₁ fresh₂ frame₁ frame₂ related ih =>
    exact .cons ih fresh₁ fresh₂ frame₁ frame₂ ⟨related.open₁, related.open₂,
      related.bindings.imp fun _ _ hxy => ⟨hxy.1, hbinding hxy.2⟩⟩

/-- Two frames are opened together. -/
theorem push (h : Stands k a b w) {f g : Frame} (hfg : Frame.Related k w f g) :
    Stands k (a.push f) (b.push g) ((a.size, b.size) :: w) := by
  refine .cons (h.congr ?_ ?_) ?_ ?_ Array.getElem?_push_size Array.getElem?_push_size
    (hfg.mono (List.subset_cons_self _ _))
  · intro i hi
    rw [Array.getElem?_push, if_neg (Nat.ne_of_lt (h.lt_size₁ hi))]
  · intro j hj
    rw [Array.getElem?_push, if_neg (Nat.ne_of_lt (h.lt_size₂ hj))]
  · exact fun hmem => Nat.lt_irrefl _ (h.lt_size₁ hmem)
  · exact fun hmem => Nat.lt_irrefl _ (h.lt_size₂ hmem)

/-- The topmost frames can be changed in any way if the world goes on without them. -/
theorem pop {i j : FrameId} (h : Stands k a b ((i, j) :: w)) (p q : Frame → Frame) :
    Stands k (a.modify i p) (b.modify j q) w := by
  cases h with
  | cons below fresh₁ fresh₂ _ _ _ =>
    refine below.congr ?_ ?_
    · intro i' hi'
      rw [Array.getElem?_modify, if_neg]
      rintro rfl
      exact fresh₁ hi'
    · intro j' hj'
      rw [Array.getElem?_modify, if_neg]
      rintro rfl
      exact fresh₂ hj'

/-- The topmost frames get one more binding each. -/
theorem bind {i j : FrameId} (h : Stands k a b ((i, j) :: w)) (name : String)
    {v v' : Binding} (hv : Binding.Related k ((i, j) :: w) v v') :
    Stands k (a.modify i fun f => { f with bindings := (name, v) :: f.bindings })
      (b.modify j fun g => { g with bindings := (name, v') :: g.bindings }) ((i, j) :: w) := by
  have hpop := h.pop (fun f => { f with bindings := (name, v) :: f.bindings })
    (fun g => { g with bindings := (name, v') :: g.bindings })
  cases h with
  | @cons _ _ _ f g _ fresh₁ fresh₂ frame₁ frame₂ related =>
    refine .cons (f := { f with bindings := (name, v) :: f.bindings })
      (g := { g with bindings := (name, v') :: g.bindings }) hpop fresh₁ fresh₂ ?_ ?_
      ⟨related.open₁, related.open₂, .cons ⟨rfl, hv⟩ related.bindings⟩
    · rw [Array.getElem?_modify, if_pos rfl, frame₁]
      rfl
    · rw [Array.getElem?_modify, if_pos rfl, frame₂]
      rfl

/-- A name is bound in related scopes to related values. -/
theorem lookup (h : Stands k a b w) {s s' : Scope} (hs : Scope.Related w s s')
    (name : String) :
    Option.Rel (Binding.Related k w) (Eval.lookup? a s name) (Eval.lookup? b s' name) := by
  induction hs with
  | nil => exact .none
  | @cons i j s s' hij _ ih =>
    obtain ⟨f, g, hf, hg, hfg⟩ := h.frame hij
    exact Eval.rel_lookup?_cons hf hg (hfg.lookup name) ih

end Stands

/-! ## Computations that match -/

/-- Two outcomes: related values and frames that stand, or the same error; or an error of
the first that is excused. -/
inductive Outcome.Alike {α β : Type} (k : Comparison) (w : World) (R : α → β → Prop) :
    Except EvalError (α × Frames) → Except EvalError (β × Frames) → Prop
  | ok {x : α} {y : β} {a b : Frames} (hxy : R x y) (hab : Stands k a b w) :
      Alike k w R (.ok (x, a)) (.ok (y, b))
  | error {e : EvalError} (he : e = .nestedTooDeep → k.deep) : Alike k w R (.error e) (.error e)
  | excused {o : Except EvalError (β × Frames)} (h : k.excused) :
      Alike k w R (.error .nestedTooDeep) o

/-- From frames that stand, the computations come to outcomes that are alike. -/
def Matches {α β : Type} (k : Comparison) (w : World) (R : α → β → Prop) (m : Eval α)
    (m' : Eval β) : Prop :=
  ∀ a b, Stands k a b w → Outcome.Alike k w R (m.run a) (m'.run b)

namespace Matches

variable {α β γ δ : Type} {R : α → β → Prop} {S : γ → δ → Prop}
variable {m : Eval α} {m' : Eval β}

theorem pure {x : α} {y : β} (h : R x y) : Matches k w R (Pure.pure x) (Pure.pure y) :=
  fun _ _ hab => .ok h hab

theorem throw {e : EvalError} (h : e = .nestedTooDeep → k.deep) :
    Matches k w R (MonadExcept.throw e) (MonadExcept.throw e) :=
  fun _ _ _ => .error h

theorem throw_flat {e : EvalError} (h : e ≠ .nestedTooDeep) :
    Matches k w R (MonadExcept.throw e) (MonadExcept.throw e) :=
  throw fun he => absurd he h

theorem bind {p : α → Eval γ} {q : β → Eval δ} (hm : Matches k w R m m')
    (hpq : ∀ x y, R x y → Matches k w S (p x) (q y)) :
    Matches k w S (m >>= p) (m' >>= q) := by
  intro a b hab
  have houtcome := hm a b hab
  rw [StateT.run_bind, StateT.run_bind]
  generalize m.run a = o at houtcome
  generalize m'.run b = o' at houtcome
  cases houtcome with
  | ok hxy hab' => exact hpq _ _ hxy _ _ hab'
  | error he => exact .error he
  | excused h => exact .excused h

/-- A computation that does not use frames. -/
theorem lift {x : Except EvalError α} (h : Flat x) :
    Matches k w Eq (liftM x : Eval α) (liftM x) := by
  intro a b hab
  cases x with
  | ok v => exact .ok rfl hab
  | error e => exact .error fun he => absurd (congrArg _ he) h

end Matches

namespace Eval

variable {α : Type} {i j : FrameId} {s s' : Scope}

theorem matches_bind (name : String) {v v' : Binding}
    (hv : Binding.Related k ((i, j) :: w) v v') :
    Matches k ((i, j) :: w) Eq (Eval.bind (i :: s) name v) (Eval.bind (j :: s') name v') :=
  fun _ _ hab => .ok rfl (hab.bind name hv)

/-- What is computed in frames of their own matches, as the frames are closed when it is
over. -/
theorem matches_inFrame {clearing clearing' : Bool} {f g : Frame}
    (hfg : Frame.Related k w f g) (hs : Scope.Related w s s') {body body' : Scope → Eval Value}
    (hbody : ∀ i j, Scope.Related ((i, j) :: w) s s' →
      Matches k ((i, j) :: w) Eq (body (i :: s)) (body' (j :: s'))) :
    Matches k w Eq (inFrame clearing f s body) (inFrame clearing' g s' body') := by
  intro a b hab
  have hinner := hbody a.size b.size (hs.mono (List.subset_cons_self _ _)) _ _ (hab.push hfg)
  show Outcome.Alike k w Eq
    ((body (a.size :: s)).run (a.push f) >>= fun r => .ok (r.1, r.2.modify a.size _))
    ((body' (b.size :: s')).run (b.push g) >>= fun r => .ok (r.1, r.2.modify b.size _))
  generalize (body (a.size :: s)).run (a.push f) = o at hinner
  generalize (body' (b.size :: s')).run (b.push g) = o' at hinner
  cases hinner with
  -- the frames of the body are the topmost again, and the world goes on without them
  | ok hxy hab' => exact .ok hxy (hab'.pop _ _)
  | error he => exact .error he
  | excused h => exact .excused h

end Eval

/-! ## Evaluators that agree -/

/-- Two evaluators agree on a tree: they match on it wherever the topmost frames are the
innermost of the scopes, and if it is a function its body is one of those compared. -/
structure Evaluator.Agree (k : Comparison) (eval eval' : Evaluator) (t : Tree) : Prop where
  value : ∀ {w : World} {i j : FrameId} {s s' : Scope} (context : Value),
    Scope.Related ((i, j) :: w) s s' →
      Matches k ((i, j) :: w) Eq (eval t context (i :: s)) (eval' t context (j :: s'))
  body : ∀ {params : List String} {body : Tree}, t = .lambda params body → k.bodies body

/-! ## One level of evaluation -/

theorem Binding.Related.alike {b b' : Binding} (h : Binding.Related k w b b') :
    Binding.Alike (Scope.Related w) (fun t t' => t = t' ∧ k.bodies t) b b' := by
  rcases h with v | (f | ⟨hbody, hscope⟩)
  · exact .value v
  · exact .function (.builtin f)
  · exact .function (.lambda ⟨rfl, hbody⟩ hscope)

theorem Binding.Alike.related {b b' : Binding}
    (h : Binding.Alike (Scope.Related w) (fun t t' => t = t' ∧ k.bodies t) b b') :
    Binding.Related k w b b' := by
  rcases h with v | (f | ⟨⟨rfl, hbody⟩, hscope⟩)
  · exact .value v
  · exact .function (.builtin f)
  · exact .function (.lambda hbody hscope)

theorem Stands.lookup_alike {a b : Frames} (h : Stands k a b w) {s s' : Scope}
    (hs : Scope.Related w s s') (name : String) :
    Option.Rel (Binding.Alike (Scope.Related w) fun t t' => t = t' ∧ k.bodies t)
      (Eval.lookup? a s name) (Eval.lookup? b s' name) := by
  have hname := h.lookup hs name
  generalize Eval.lookup? a s name = x at hname ⊢
  generalize Eval.lookup? b s' name = y at hname ⊢
  cases hname with
  | none => exact .none
  | some h => exact .some h.alike

/-- Matching is kept by the constructs.  Names are bound in the topmost frames. -/
def Comparison.congruence (k : Comparison) : Congruence Eval Eval where
  World := World
  sees := Scope.Related
  bodies t t' := t = t' ∧ k.bodies t
  scopes _ w s s' := ∃ i j w₀ s₀ s₀', w = (i, j) :: w₀ ∧ s = i :: s₀ ∧ s' = j :: s₀'
    ∧ Scope.Related w s₀ s₀'
  frames w a b := Stands k a b w
  clears _ _ := True
  rel w R := Matches k w R
  sees_of_scopes := by
    rintro _ _ _ _ ⟨i, j, w, s, s', rfl, rfl, rfl, hs⟩
    exact hs.enter
  lookup hab hs := hab.lookup_alike hs
  pure := .pure
  bind := .bind
  throw := .throw_flat
  lift := .lift
  get _ _ hab := .ok hab hab
  note name hs hv := by
    obtain ⟨i, j, w, s, s', rfl, rfl, rfl, -⟩ := hs
    exact Eval.matches_bind name hv.related
  inFrame _ hs hbs hbody := by
    refine Eval.matches_inFrame ⟨rfl, rfl, ?_⟩ hs fun i j hs => ?_
    · exact hbs.imp fun _ _ h => ⟨h.1, h.2.related⟩
    · exact hbody _ i j ⟨i, j, _, _, _, rfl, rfl, rfl, hs⟩

/-- **Evaluators that agree on the parts of a tree agree on the tree**: matching goes
through every construct. -/
theorem matches_evalNode {eval eval' : Evaluator} {input : Json} {now : String}
    {clearing clearing' : Bool} (hbodies : ∀ t, k.bodies t → Evaluator.Agree k eval eval' t)
    {i j : FrameId} {s s' : Scope} (hs : Scope.Related ((i, j) :: w) s s') (context : Value)
    {t : Tree} (hparts : ∀ u ∈ t.parts, Evaluator.Agree k eval eval' u) :
    Matches k ((i, j) :: w) Eq (evalNode ⟨input, now, clearing⟩ eval t context (i :: s))
      (evalNode ⟨input, now, clearing'⟩ eval' t context (j :: s')) := by
  have hvalue : ∀ {u}, Evaluator.Agree k eval eval' u → ∀ {w s s'},
      k.congruence.scopes true w s s' → k.congruence.Relates w s s' eval eval' u u := by
    rintro u hu _ _ _ ⟨i, j, w, s, s', rfl, rfl, rfl, hs⟩ context
    exact hu.value context hs
  have hscopes : k.congruence.scopes true ((i, j) :: w) (i :: s) (j :: s') :=
    ⟨i, j, w, s, s', rfl, rfl, rfl, hs⟩
  refine k.congruence.rel_evalNode (Q := fun u u' => u = u' ∧ Evaluator.Agree k eval eval' u)
    trivial ?_ hscopes ?_ (.refl (fun _ => rfl) (fun u hu => ?_) (fun u hu => ⟨rfl, hparts u hu⟩)
      fun u hu => ?_) context
  · rintro u _ ⟨rfl, hbody⟩ _ _ _ hs
    exact hvalue (hbodies u hbody) hs
  · rintro _ _ _ u _ hs ⟨rfl, hu⟩
    exact hvalue hu hs
  · exact hvalue (hparts u (t.mem_parts_of_mem_inner hu)) hscopes
  · exact .refl fun h => ⟨rfl, (hparts u hu).body h⟩

end Reshape.Expression
