/-
# What a parser yields

A parser that starts at a state may fail; `After` says what holds of its answer and of the
state behind it if it does not.  A parser is taken apart along its steps by `after_bind`,
and the parsers of lists and blocks yield lists of what the parser inside yields.  What
holds after the whole parser holds of every expression that compiles (`of_compileTree`).
-/
import Mathlib.Tactic
import Reshape.Expression.Compiled
import Reshape.Proofs.Sequencing

namespace Reshape.Expression.Parser

variable {α β : Type}

/-! ## Steps -/

/-- If the parser succeeds from a state, this holds of its answer and of the state then. -/
def After (m : Parser α) (s : ParseState) (P : α → ParseState → Prop) : Prop :=
  ∀ x s', m.run s = .ok (x, s') → P x s'

variable {s : ParseState} {P : α → ParseState → Prop} {Q : β → ParseState → Prop}

theorem after_pure {x : α} (h : P x s) : After (pure x) s P := by
  intro x' s' hrun
  cases hrun
  exact h

theorem after_throw {f : Fault} : After (throw f : Parser α) s P := by
  intro x s' hrun
  have herror : (Except.error f : Except Fault (α × ParseState)) = .ok (x, s') := hrun
  cases herror


theorem after_bind {m : Parser α} {f : α → Parser β}
    (h : After m s fun x s' => After (f x) s' Q) : After (m >>= f) s Q := by
  intro y s' hrun
  obtain ⟨x, t, hm, hf⟩ := exists_of_run_bind hrun
  exact h x t hm y s' hf

theorem After.imp {m : Parser α} {P' : α → ParseState → Prop} (h : After m s P)
    (hP : ∀ x s', P x s' → P' x s') : After m s P' :=
  fun x s' hrun => hP x s' (h x s' hrun)

/-- Whatever a parser does, nothing is known after it. -/
theorem after_any {m : Parser α} : After m s fun _ _ => True := fun _ _ _ => trivial

/-- A step about which nothing need be known. -/
theorem after_step {m : Parser α} {f : α → Parser β} (h : ∀ x s', After (f x) s' Q) :
    After (m >>= f) s Q :=
  after_bind (after_any.imp fun x s' _ => h x s')

/-- A parser that begins by looking at its state. -/
theorem after_get {f : ParseState → Parser β} (h : After (f s) s Q) :
    After (do f (← get)) s Q :=
  h

theorem after_failHere {cause : Token → Cause} {P : α → ParseState → Prop} :
    After (failHere cause) s P :=
  after_get after_throw

/-- A computation that does not use the state. -/
theorem after_lift {x : Except Fault α} (h : ∀ v, x = .ok v → P v s) :
    After (liftM x : Parser α) s P := by
  intro v s' hrun
  cases x with
  | error f => cases hrun
  | ok y =>
    cases hrun
    exact h v rfl

/-- Reading the token at hand changes nothing. -/
theorem after_at? {o : Symbol} {f : Bool → Parser β}
    (h : After (f (s.here.token == .symbol o)) s Q) : After (do f (← at? o)) s Q :=
  h

/-- Counting the tokens left changes nothing. -/
theorem after_left {f : Nat → Parser β} (h : After (f (s.later.length + 1)) s Q) :
    After (left >>= f) s Q :=
  h

/-- The token that is taken is the one at hand. -/
theorem after_take : After take s fun t _ => t = s.here := by
  intro t s' hrun
  obtain ⟨here, later, bound⟩ := s
  cases later with
  | nil =>
    cases hrun
    rfl
  | cons next later =>
    cases hrun
    rfl

/-! ## Rows -/

/-- Rows of items yield what the items yield. -/
theorem after_itemsFrom {P : α → Prop} {item : Parser α} {close : Symbol}
    (hitem : ∀ s, After item s fun x _ => P x) (steps : Nat) {acc : List α}
    (hacc : ∀ x ∈ acc, P x) (s : ParseState) :
    After (itemsFrom item close steps acc) s fun xs _ => ∀ x ∈ xs, P x := by
  induction steps generalizing acc s with
  | zero => exact after_failHere
  | succ steps ih =>
    refine after_bind ((hitem s).imp fun v s' hv => after_step fun more s' => ?_)
    have hcons : ∀ x ∈ v :: acc, P x := List.forall_mem_cons.2 ⟨hv, hacc⟩
    cases more with
    | true => exact ih hcons s'
    | false =>
      refine after_step fun _ s' => after_pure ?_
      exact fun x hx => hcons x (List.mem_reverse.1 hx)

theorem after_items {P : α → Prop} {item : Parser α} {close : Symbol}
    (hitem : ∀ s, After item s fun x _ => P x) (s : ParseState) :
    After (items item close) s fun xs _ => ∀ x ∈ xs, P x := by
  refine after_step fun none s' => ?_
  cases none with
  | true => exact after_pure (List.forall_mem_nil _)
  | false => exact after_step fun n s' => after_itemsFrom hitem n (List.forall_mem_nil _) s'

theorem after_entry {P : Tree → Prop} {expr : Nat → Parser Tree}
    (hexpr : ∀ power s, After (expr power) s fun t _ => P t) (s : ParseState) :
    After (entry expr) s fun e _ => P e.1 ∧ P e.2 := by
  refine after_bind ((hexpr 0 s).imp fun key s' hkey => after_step fun _ s' => ?_)
  exact after_bind ((hexpr 0 s').imp fun value s' hvalue => after_pure ⟨hkey, hvalue⟩)

theorem after_blockFrom {P : Tree → Prop} {expr : Nat → Parser Tree}
    (hexpr : ∀ power s, After (expr power) s fun t _ => P t) (steps : Nat) {acc : List Tree}
    (hacc : ∀ t ∈ acc, P t) (s : ParseState) :
    After (blockFrom expr steps acc) s fun ts _ => ∀ t ∈ ts, P t := by
  induction steps generalizing acc s with
  | zero => exact after_failHere
  | succ steps ih =>
    refine after_at? ?_
    split
    · exact after_pure fun t ht => hacc t (List.mem_reverse.1 ht)
    · refine after_bind ((hexpr 0 s).imp fun v s' hv => after_step fun more s' => ?_)
      have hcons : ∀ t ∈ v :: acc, P t := List.forall_mem_cons.2 ⟨hv, hacc⟩
      cases more with
      | true => exact ih hcons s'
      | false => exact after_pure fun t ht => hcons t (List.mem_reverse.1 ht)

/-- Parentheses make a block of the expressions in them, but one expression alone that is no
binding stands for itself. -/
theorem after_block_items (expr : Nat → Parser Tree) (s : ParseState) :
    After (block expr) s fun t _ => ∃ items s',
      (blockFrom expr (s.later.length + 2) []).run s = .ok (items, s')
        ∧ (t = .block items ∨ items = [t] ∧ t.isBind = false) := by
  refine after_left (after_bind fun items s' hitems => after_step fun _ s'' => ?_)
  split
  · rename_i v
    split
    · exact after_pure ⟨[v], s', hitems, Or.inl rfl⟩
    · rename_i hbind
      exact after_pure ⟨[v], s', hitems, Or.inr ⟨rfl, Bool.eq_false_iff.2 hbind⟩⟩
  · exact after_pure ⟨items, s', hitems, Or.inl rfl⟩

/-! ## Whole texts -/

/-- A text that compiles is read from its first token on, with nothing bound. -/
theorem exists_whole_of_compileTree {source : String} {t : Tree}
    (h : compileTree source = .ok t) : ∃ here later s, tokens source = .ok (here :: later)
      ∧ whole.run ⟨here, later, []⟩ = .ok (t, s) := by
  have hparse : ∀ ts u, parseTokens ts = .ok u →
      ∃ here later s, ts = here :: later ∧ whole.run ⟨here, later, []⟩ = .ok (u, s) := by
    intro ts u hu
    cases ts with
    | nil => cases hu
    | cons here later =>
      rw [parseTokens] at hu
      cases hrun : whole.run ⟨here, later, []⟩ with
      | error f =>
        rw [hrun] at hu
        cases hu
      | ok r =>
        rw [hrun] at hu
        cases hu
        exact ⟨here, later, r.2, rfl, hrun⟩
  simp only [compileTree, parse, bind, Except.bind] at h
  cases htokens : tokens source with
  | error f =>
    rw [htokens] at h
    cases h
  | ok ts =>
    cases hu : parseTokens ts with
    | error f =>
      simp only [htokens, hu] at h
      cases h
    | ok u =>
      simp only [htokens, hu] at h
      split at h
      · cases h
      · cases h
        obtain ⟨here, later, s, rfl, hrun⟩ := hparse ts t hu
        exact ⟨here, later, s, rfl, hrun⟩

/-- What holds of every tree of the parser holds of the tree of a text that compiles. -/
theorem of_compileTree {P : Tree → Prop} (hwhole : ∀ s, After whole s fun t _ => P t)
    {source : String} {t : Tree} (h : compileTree source = .ok t) : P t := by
  obtain ⟨here, later, s, -, hrun⟩ := exists_whole_of_compileTree h
  exact hwhole _ t s hrun

end Reshape.Expression.Parser
