/-
# Parsers along tokens

A parser is followed along the tokens that it takes (`Takes`): it succeeds, and what it makes
of them and where it stops depends on the tokens only, not on where they stand in the text nor
on the variables bound so far.  A parser is put together from its steps by `Takes.bind`, and
the parsers of rows take one item after the other (`takes_items`).
-/
import Mathlib.Tactic
import Reshape.Expression.Compiled
import Reshape.Proofs.Sequencing

namespace Reshape.Expression

/-! ## Steps -/

/-- The tokens left, the one at hand first. -/
def ParseState.tokens (s : ParseState) : List Token := (s.here :: s.later).map Located.token

namespace Parser

variable {α β : Type} {m : Parser α} {f : α → Parser β} {x : α} {y : β} {t : Token} {o : Symbol}
  {ts ts' ts'' : List Token}

/-- The parser makes `x` of the tokens `ts` and leaves `ts'`. -/
def Takes (m : Parser α) (ts : List Token) (x : α) (ts' : List Token) : Prop :=
  ∀ s, s.tokens = ts → ∃ s', m.run s = .ok (x, s') ∧ s'.tokens = ts'

theorem takes_pure : Takes (pure x) ts x ts := fun s hs => ⟨s, rfl, hs⟩

theorem Takes.bind (h : Takes m ts x ts') (hf : Takes (f x) ts' y ts'') :
    Takes (m >>= f) ts y ts'' := by
  intro s hs
  obtain ⟨s', hrun, hs'⟩ := h s hs
  obtain ⟨s'', hrun', hs''⟩ := hf s' hs'
  exact ⟨s'', (run_bind_of_ok hrun).trans hrun', hs''⟩

/-- Taking a token leaves those behind it. -/
theorem takes_take (hts : ts ≠ []) {g : Located → Parser β}
    (hg : ∀ p, Takes (g ⟨t, p⟩) ts y ts') : Takes (take >>= g) (t :: ts) y ts' := by
  intro s hs
  obtain ⟨⟨token, position⟩, later, bound⟩ := s
  obtain ⟨rfl, hlater⟩ := List.cons.inj hs
  cases later with
  | nil => exact absurd hlater.symm hts
  | cons next later =>
    obtain ⟨s', hrun, hs'⟩ := hg position ⟨next, later, bound⟩ hlater
    exact ⟨s', hrun, hs'⟩

theorem takes_at? {g : Bool → Parser β} (hg : Takes (g (t == .symbol o)) (t :: ts) y ts') :
    Takes (at? o >>= g) (t :: ts) y ts' := by
  intro s hs
  have hhere : s.here.token = t := (List.cons.inj hs).1
  have hrun : (at? o >>= g).run s = (g (s.here.token == .symbol o)).run s := rfl
  rw [hrun, hhere]
  exact hg s hs

theorem takes_accept (hts : ts ≠ []) : Takes (accept o) (.symbol o :: ts) true ts := by
  refine takes_at? ?_
  rw [beq_self_eq_true]
  exact takes_take hts fun p => takes_pure

theorem takes_accept_other (h : t ≠ .symbol o) : Takes (accept o) (t :: ts) false (t :: ts) := by
  refine takes_at? ?_
  rw [beq_eq_false_iff_ne.2 h]
  exact takes_pure

theorem takes_expect (hts : ts ≠ []) : Takes (expect o) (.symbol o :: ts) () ts := by
  refine takes_at? ?_
  rw [beq_self_eq_true]
  exact takes_take hts fun p => takes_pure

theorem takes_left : Takes left ts ts.length ts := by
  intro s hs
  refine ⟨s, ?_, hs⟩
  rw [← hs, ParseState.tokens, List.length_map, List.length_cons]
  rfl

/-- A token that does not bind ends the operators. -/
theorem takes_operationsFrom (below : Nat → Nat → Parser Tree) {power : Nat}
    (ht : t.power ≤ power) (steps levels : Nat) (left : Tree) :
    Takes (operationsFrom below power steps levels left) (t :: ts) left (t :: ts) := by
  cases steps with
  | zero => exact takes_pure
  | succ steps =>
    intro s hs
    have hhere : s.here.token = t := (List.cons.inj hs).1
    refine ⟨s, ?_, hs⟩
    show (if power < s.here.token.power then _ else pure left : Parser Tree).run s = _
    rw [hhere, if_neg (Nat.not_lt.2 ht)]
    rfl

/-- An operand that no operator follows is an expression. -/
theorem takes_below {levels power : Nat} {u : Tree}
    (h : Takes (operand (below levels levels)) ts u (t :: ts')) (ht : t.power ≤ power) :
    Takes (below (levels + 1) (levels + 1) power) ts u (t :: ts') := by
  rw [below, if_neg (by omega)]
  exact h.bind (takes_left.bind (takes_operationsFrom _ ht _ _ _))

/-- An expression before the end mark is a whole text. -/
theorem takes_text {u : Tree} (h : Takes (expression maxNesting 0) ts u [.done]) :
    Takes whole ts u [.done] := by
  refine h.bind fun s hs => ?_
  have hhere : s.here.token = .done := (List.cons.inj hs).1
  refine ⟨s, ?_, hs⟩
  show (if (s.here.token != .done) = true then failHere .unexpected >>= fun _ =>
    pure u else pure u : Parser Tree).run s = _
  rw [hhere]
  rfl

/-! ## Rows -/

/-- Items separated by commas are taken one after the other. -/
theorem takes_itemsFrom {γ : Type} {row : γ → List Token} {value : γ → α} {item : Parser α}
    {close : Symbol} (hclose : close ≠ .comma) {g : γ} {gs : List γ}
    (hitem : ∀ g' ∈ g :: gs, ∀ o ts, o = .comma ∨ o = close →
      Takes item (row g' ++ .symbol o :: ts) (value g') (.symbol o :: ts))
    {steps : Nat} (hsteps : gs.length < steps) (acc : List α) (hts : ts ≠ []) :
    Takes (itemsFrom item close steps acc)
      (row g ++ (gs.flatMap (fun g' => .symbol .comma :: row g') ++ .symbol close :: ts))
      (acc.reverse ++ (g :: gs).map value) ts := by
  induction gs generalizing g steps acc with
  | nil =>
    obtain ⟨steps, rfl⟩ : ∃ k, steps = k + 1 := ⟨steps - 1, by omega⟩
    refine (hitem g List.mem_cons_self close ts (Or.inr rfl)).bind ?_
    refine (takes_accept_other fun h => hclose (Token.symbol.inj h)).bind ?_
    refine (takes_expect hts).bind ?_
    rw [List.map_singleton, ← List.reverse_cons]
    exact takes_pure
  | cons g' gs ih =>
    obtain ⟨steps, rfl⟩ : ∃ k, steps = k + 1 := ⟨steps - 1, by omega⟩
    have hrest := ih (g := g') (fun b hb => hitem b (List.mem_cons_of_mem g hb))
      (Nat.lt_of_succ_lt_succ hsteps) (value g :: acc)
    have hvalues : acc.reverse ++ (g :: g' :: gs).map value =
        (value g :: acc).reverse ++ (g' :: gs).map value := by simp
    rw [List.flatMap_cons, List.cons_append, List.cons_append, List.append_assoc, hvalues]
    refine (hitem g List.mem_cons_self .comma _ (Or.inl rfl)).bind ?_
    refine (takes_accept ?_).bind hrest
    simp

theorem takes_items_nil {item : Parser α} {close : Symbol} (hts : ts ≠ []) :
    Takes (items item close) (.symbol close :: ts) [] ts :=
  (takes_accept hts).bind takes_pure

/-- A row that does not start with its closing symbol is taken item by item. -/
theorem takes_items {γ : Type} (row : γ → List Token) (value : γ → α) {item : Parser α}
    {close : Symbol} (hclose : close ≠ .comma) {g : γ} {gs : List γ}
    (hitem : ∀ g' ∈ g :: gs, ∀ o ts, o = .comma ∨ o = close →
      Takes item (row g' ++ .symbol o :: ts) (value g') (.symbol o :: ts))
    (hfirst : ∃ t ts, row g = t :: ts ∧ t ≠ .symbol close) (hts : ts ≠ []) :
    Takes (items item close)
      (row g ++ (gs.flatMap (fun g' => .symbol .comma :: row g') ++ .symbol close :: ts))
      ((g :: gs).map value) ts := by
  obtain ⟨t, us, hrow, ht⟩ := hfirst
  have hlength : gs.length ≤ (gs.flatMap fun g' => Token.symbol .comma :: row g').length := by
    induction gs with
    | nil => exact Nat.zero_le _
    | cons g' gs ih =>
      have hgs := ih fun b hb => hitem b (by
        rcases List.mem_cons.1 hb with rfl | hb
        · exact List.mem_cons_self
        · exact List.mem_cons_of_mem _ (List.mem_cons_of_mem _ hb))
      rw [List.flatMap_cons, List.length_append, List.length_cons, List.length_cons]
      omega
  have hsteps : gs.length < (row g ++ (gs.flatMap (fun g' => .symbol .comma :: row g') ++
      .symbol close :: ts)).length := by
    simp only [List.length_append, List.length_cons]
    omega
  have hrest := takes_itemsFrom hclose hitem hsteps [] hts
  have hother : Takes (accept close)
      (row g ++ (gs.flatMap (fun g' => .symbol .comma :: row g') ++ .symbol close :: ts)) false
      (row g ++ (gs.flatMap (fun g' => .symbol .comma :: row g') ++ .symbol close :: ts)) := by
    rw [hrow, List.cons_append]
    exact takes_accept_other ht
  exact hother.bind (takes_left.bind hrest)

end Parser

/-! ## Whole texts -/

/-- A text compiles to the tree that the parser makes of its tokens. -/
theorem compileTree_of_takes {source : String} {ls : List Located} {ts : List Token} {t : Tree}
    (hls : tokens source = .ok ls) (hts : ls.map Located.token = ts ++ [.done])
    (h : Parser.Takes (Parser.expression maxNesting 0) (ts ++ [.done]) t [.done])
    (harity : t.arityFault? = none) : compileTree source = .ok t := by
  have hparse : parseTokens ls = .ok t := by
    cases ls with
    | nil => simp at hts
    | cons first later =>
      obtain ⟨s, hrun, -⟩ := Parser.takes_text h ⟨first, later, []⟩ hts
      rw [parseTokens, hrun]
      rfl
  simp only [compileTree, parse, hls, hparse, bind, Except.bind, harity]
  rfl

end Reshape.Expression
