/-
# Behind a prelude

In a group, `(p; e)`, the expression `e` is read with the names bound that its prelude `p` binds,
and the body of a function with its parameters bound.  Two groups with one prelude come behind it
with the same names bound, whatever is there (`exists_behind_prelude`).  So if two rows are read
alike wherever a third one is an expression, as a chain and the call that it stands for are where
the name of the function has a meaning (`interchange_application`), then they are read alike
inside groups and functions as well (`Interchange.group`, `Interchange.function`).
-/
import Reshape.Proofs.Application

namespace Reshape.Expression

namespace Parser

open Expression.Tree (Moved)

/-! ## Behind a prelude -/

theorem Upto.head_ne {t : Token} {c : List Token} (h : Upto .semicolon (t :: c)) :
    t ≠ .symbol .closeParen := by
  obtain ⟨b, hb, hc⟩ := h
  cases b with
  | nil =>
    rw [(List.cons.inj hc).1]
    decide
  | cons u b =>
    rw [(List.cons.inj hc).1]
    exact hb.head_ne

/-- Behind a semicolon there are more items, or it was the last one. -/
theorem Upto.behind_semicolon {c : List Token} (h : Upto .semicolon (.symbol .semicolon :: c)) :
    c = [] ∨ Upto .semicolon c := by
  obtain ⟨b, hb, hc⟩ := h
  cases hb with
  | nil => exact Or.inl (List.cons.inj hc).2
  | cons _ hb => exact Or.inr ⟨_, hb, (List.cons.inj hc).2⟩
  | group => cases (List.cons.inj hc).1

/-- What is left of a group when its items are read. -/
def closing (items : List Tree) : Parser Tree :=
  expect .closeParen >>= fun _ => pure (grouped items)

theorem run_block (expr : Nat → Parser Tree) (s : ParseState) :
    (block expr).run s = (blockFrom expr (s.later.length + 2) [] >>= closing).run s := by
  rw [block_eq, run_left]
  rfl

theorem here_of_closing {items : List Tree} {s : ParseState} {x : Tree × ParseState}
    (h : (closing items).run s = .ok x) : s.here.token = .symbol .closeParen := by
  have hafter : After (closing items) s fun _ _ => s.here.token = .symbol .closeParen := by
    refine after_bind (after_at? ?_)
    split
    · rename_i hhere
      exact after_any.imp fun _ _ _ => after_pure (beq_iff_eq.1 hhere)
    · exact after_failHere
  exact hafter x.1 x.2 h

/-- The next item of a group, which is not at its end. -/
theorem run_blockFrom {expr : Nat → Parser Tree} {s : ParseState}
    (h : s.here.token ≠ .symbol .closeParen) (steps : Nat) (acc : List Tree) :
    (blockFrom expr (steps + 1) acc).run s = (expr 0 >>= fun v => accept .semicolon >>= fun more =>
      if more = true then blockFrom expr steps (v :: acc) else pure (v :: acc).reverse).run s := by
  show (if (s.here.token == .symbol .closeParen) = true then _ else _ : Parser (List Tree)).run s
    = _
  rw [beq_eq_false_iff_ne.2 h, if_neg Bool.false_ne_true]

section Prelude

variable {n : Nat} {k k' q : ParseState} {u : Tree} {acc : List Tree} {t : Token}
  {c d us : List Token}

/-- An expression that is read leaves the end of its row. -/
theorem onward_of_run {z : Symbol} {power : Nat} (hz : Ending z) (hc : Upto z c) (hended : k.Ended)
    (hk : k.tokens = c ++ us) (hus : us ≠ []) (hrun : (below n n power).run k = .ok (u, k')) :
    Onward (Noted k.tokens k.bound) z c us us k' k' := by
  have hself : Shares (Noted k.tokens k.bound) c us us k k :=
    ⟨hk, hk, hus, hus, rfl, .init hended⟩
  have hgoes := goes_below n n n n power hz hc hself
  unfold Abreast at hgoes
  rw [hrun] at hgoes
  exact hgoes.of_ok.2

/-- One item of a prelude in a run beside one in which it was read. -/
theorem run_item_of_shares (hc : Upto .semicolon (t :: c))
    (hitem : (below n n 0).run k = .ok (u, k')) (hk' : k'.tokens = .symbol .semicolon :: (d ++ us))
    {W : List Token} {B : List String} {us' : List Token} {s : ParseState}
    (h : Shares (Noted W B) (t :: c) us' us s k) (steps : Nat) (acc' : List Tree) :
    (∃ f, (blockFrom (below n n) (steps + 1) acc').run s = .error f ∧ f.cause = .nestedTooDeep) ∨
      ∃ s' u', (blockFrom (below n n) (steps + 1) acc').run s =
          (blockFrom (below n n) steps (u' :: acc')).run s' ∧
        Shares (Noted W B) d us' us s' k'.next ∧ Moved u' u := by
  have hgoes := goes_below n n n n 0 (Or.inr rfl) hc h
  unfold Abreast at hgoes
  rw [hitem] at hgoes
  rw [run_blockFrom (by rw [h.here]; exact hc.head_ne)]
  generalize hrun : (below n n 0).run s = o at hgoes
  cases hgoes with
  | left hf =>
    exact Or.inl ⟨_, run_bind_of_error hrun, hf⟩
  | @ok x _ hx =>
    obtain ⟨x, s'⟩ := x
    obtain ⟨hmoved, e, he, -, hshares⟩ := hx
    obtain rfl : e = .symbol .semicolon :: d := by
      have hright : k'.tokens = e ++ us := hshares.right
      rw [hk', ← List.cons_append] at hright
      exact (List.append_cancel_right hright).symm
    refine Or.inr ⟨s'.next, x, ?_, hshares.next (Noted.next _ hshares.known), hmoved⟩
    rw [run_bind_of_ok hrun, run_accept hshares.here, if_pos rfl]

/-- A group that is read to its end comes behind its prelude, and every run that shares the
prelude comes there with the same names bound, unless it is nested too deep. -/
theorem exists_behind_prelude {steps : Nat} {v : Tree} (hc : Upto .semicolon c) (hended : k.Ended)
    (hk : k.tokens = c ++ us) (hus : us ≠ [])
    (hrun : (blockFrom (below n n) steps acc >>= closing).run k = .ok (v, q)) :
    ∃ r steps₁ acc₁, (blockFrom (below n n) steps₁ acc₁ >>= closing).run r = .ok (v, q) ∧
      r.tokens = us ∧ r.Ended ∧
      ∀ {W : List Token} {B : List String} {us' : List Token} {s : ParseState} {steps' : Nat}
        {acc' : List Tree}, Shares (Noted W B) c us' us s k → List.Forall₂ Moved acc' acc →
        c.length < steps' →
          (∃ f, (blockFrom (below n n) steps' acc').run s = .error f ∧ f.cause = .nestedTooDeep) ∨
          ∃ r' steps₂ acc₂, (blockFrom (below n n) steps' acc').run s =
              (blockFrom (below n n) (steps₂ + 1) acc₂).run r' ∧
            Shares (Noted W B) [] us' us r' r ∧ List.Forall₂ Moved acc₂ acc₁ := by
  induction steps generalizing acc c k with
  | zero => cases hrun
  | succ steps ih =>
    obtain ⟨t, c, rfl⟩ := hc.exists_cons
    have hhere : k.here.token = t := (List.cons.inj hk).1
    rw [run_bind_congr (run_blockFrom (hhere ▸ hc.head_ne) steps acc), bind_assoc] at hrun
    cases hitem : (below n n 0).run k with
    | error f =>
      rw [run_bind_of_error hitem] at hrun
      cases hrun
    | ok x =>
      obtain ⟨u, k'⟩ := x
      rw [run_bind_of_ok hitem, bind_assoc] at hrun
      obtain ⟨e, he, hlen, h'⟩ := onward_of_run (Or.inr rfl) hc hended hk hus hitem
      obtain ⟨w, d, rfl⟩ := he.exists_cons
      by_cases hw : w = .symbol .semicolon
      · subst hw
        rw [run_accept h'.here, if_pos rfl] at hrun
        have hnext := h'.next (Noted.next _ h'.known)
        simp only [List.length_cons] at hlen
        rcases he.behind_semicolon with rfl | hd
        · -- the last item
          refine ⟨k'.next, steps, u :: acc, hrun, hnext.left, hnext.known.ended, ?_⟩
          intro W B us' s steps' acc' h hacc hsteps
          rw [List.length_cons] at hsteps
          obtain ⟨steps', rfl⟩ : ∃ j, steps' = j + 2 := ⟨steps' - 2, by omega⟩
          rcases run_item_of_shares hc hitem h'.left h (steps' + 1) acc' with
            hdeep | ⟨s', u', hs', hshares, hmoved⟩
          · exact Or.inl hdeep
          · exact Or.inr ⟨s', steps', u' :: acc', hs', hshares, .cons hmoved hacc⟩
        · obtain ⟨r, steps₁, acc₁, hrest, hr, hended, hall⟩ :=
            ih hd hnext.known.ended hnext.left hrun
          refine ⟨r, steps₁, acc₁, hrest, hr, hended, ?_⟩
          intro W B us' s steps' acc' h hacc hsteps
          rw [List.length_cons] at hsteps
          obtain ⟨steps', rfl⟩ := Nat.exists_eq_add_one_of_ne_zero (Nat.ne_zero_of_lt hsteps)
          rcases run_item_of_shares hc hitem h'.left h steps' acc' with
            hdeep | ⟨s', u', hs', hshares, hmoved⟩
          · exact Or.inl hdeep
          · rw [hs']
            exact hall hshares (.cons hmoved hacc) (by omega)
      · -- without a semicolon the group would have to end
        rw [run_accept_other (h'.here ▸ hw), if_neg Bool.false_ne_true, pure_bind] at hrun
        exact absurd (h'.here.symm.trans (here_of_closing hrun)) he.head_ne

end Prelude

/-- A name that is read has a meaning where it stands. -/
theorem after_below_var {n power : Nat} {s : ParseState} {f : String} {t : Token}
    {ts : List Token} (hempty : f ≠ "") (hroot : f ≠ "$") (hs : s.tokens = .var f :: t :: ts)
    (ht : t ≠ .symbol .bind) :
    After (below n n power) s fun _ _ => ∃ callee, meaning? s.bound f = some callee := by
  cases n with
  | zero => exact after_failHere
  | succ n =>
    obtain ⟨hvar, hnext⟩ := next_of_tokens (List.cons_ne_nil _ _) hs
    have hbind : (s.next.here.token == .symbol .bind) = false := by
      rw [(List.cons.inj hnext).1]
      exact beq_eq_false_iff_ne.2 ht
    rw [below, if_neg (Nat.not_succ_le_self n)]
    refine after_bind (after_take_next ?_)
    simp only [hvar, beq_eq_false_iff_ne.2 hempty, beq_eq_false_iff_ne.2 hroot]
    refine after_at? ?_
    rw [hbind, if_neg Bool.false_ne_true]
    refine after_bind ((after_named_meaning f _).imp ?_)
    rintro callee q hmeaning
    rw [s.next_bound] at hmeaning
    exact after_any.imp fun _ _ _ => after_any.imp fun _ _ _ => hmeaning

/-- The last item of a group. -/
theorem run_last_item {expr : Nat → Parser Tree} {s : ParseState} {v : Tree} {acc : List Tree}
    (h : s.here.token = .symbol .closeParen) {steps : Nat} :
    ((accept .semicolon >>= fun more => if more = true then blockFrom expr steps (v :: acc)
      else pure (v :: acc).reverse) >>= closing).run s =
        .ok (grouped (v :: acc).reverse, s.next) := by
  have hother : s.here.token ≠ .symbol .semicolon := by
    rw [h]
    decide
  rw [run_bind_congr (run_accept_other hother), if_neg Bool.false_ne_true, pure_bind, closing,
    run_expect h]
  rfl

/-- A group that is read to its end has its next item read. -/
theorem exists_run_item {n steps : Nat} {acc : List Tree} {s : ParseState}
    {x : Tree × ParseState} (h : s.here.token ≠ .symbol .closeParen)
    (hrun : (blockFrom (below n n) steps acc >>= closing).run s = .ok x) :
    ∃ y, (below n n 0).run s = .ok y := by
  cases steps with
  | zero => cases hrun
  | succ steps =>
    rw [run_bind_congr (run_blockFrom h steps acc), bind_assoc] at hrun
    obtain ⟨y, k, hy, -⟩ := exists_of_run_bind hrun
    exact ⟨(y, k), hy⟩

/-! ## Rows that may stand for each other -/

/-- In front of a row, with these names bound. -/
structure InFront (B : List String) (row : List Token) (s : ParseState) : Prop where
  ended : s.Ended
  bound : s.bound = B
  tokens : s.tokens = row

namespace InFront

variable {B : List String} {t : Token} {row : List Token} {s : ParseState}

theorem here (h : InFront B (t :: row) s) : s.here.token = t :=
  (List.cons.inj h.tokens).1

theorem next (h : InFront B (t :: row) s) (ht : t ≠ .done) : InFront B row s.next := by
  obtain ⟨htokens, hended⟩ := ParseState.tokens_next h.ended (h.here.trans_ne ht)
  exact ⟨hended, s.next_bound.trans h.bound, (List.cons.inj (htokens.symm.trans h.tokens)).2⟩

/-- Two states in front of rows that begin alike. -/
theorem shares {c us us' : List Token} {k : ParseState} (h : InFront B (c ++ us) s)
    (hk : InFront B (c ++ us') k) (hus : us ≠ []) (hus' : us' ≠ []) :
    Shares (Noted s.tokens s.bound) c us us' s k :=
  ⟨h.tokens, hk.tokens, hus, hus', h.bound.trans hk.bound.symm, .init h.ended⟩

end InFront

/-- The row starts with no parenthesis that closes. -/
def Opens (row : List Token) : Prop := ∃ t ts, row = t :: ts ∧ t ≠ .symbol .closeParen

/-- Wherever the row `e₀` is an expression, `e` and `e'` are read to the same but for places. -/
structure Interchange (e₀ e e' : List Token) : Prop where
  opens₀ : Opens e₀
  opens : Opens e
  opens' : Opens e'
  abreast : ∀ {n : Nat} {B : List String} {t : Token} {us : List Token} {k s s' : ParseState}
    {x : Tree × ParseState}, t.power = 0 → InFront B (e₀ ++ t :: us) k →
    InFront B (e ++ t :: us) s → InFront B (e' ++ t :: us) s' → (below n n 0).run k = .ok x →
    Abreast (below n n 0) (below n n 0) s s' fun v w r r' =>
      Moved v w ∧ r.tokens = t :: us ∧ r'.tokens = t :: us

theorem Opens.here_ne {B : List String} {row us : List Token} {s : ParseState} (h : Opens row)
    (hs : InFront B (row ++ us) s) : s.here.token ≠ .symbol .closeParen := by
  obtain ⟨t, ts, rfl, ht⟩ := h
  rw [hs.here]
  exact ht

/-- Where the name of a function can be read, a chain is a call. -/
theorem interchange_application {f : String} {l behind behind' : List Token} (hempty : f ≠ "")
    (hroot : f ≠ "$") (hl : Balanced l) (hf : f ∉ boundIn l) (hargs : Arguments behind behind') :
    Interchange [.var f] (chainRow f l behind) (callRow f l behind') where
  opens₀ := ⟨_, _, rfl, Token.noConfusion⟩
  opens := ⟨_, _, rfl, by decide⟩
  opens' := ⟨_, _, rfl, Token.noConfusion⟩
  abreast := by
    intro n B t us k s s' x ht hk hs hs' hrun
    have hbind : t ≠ .symbol .bind := by
      rintro rfl
      cases ht
    obtain ⟨callee, hmeaning⟩ :=
      after_below_var hempty hroot hk.tokens hbind x.1 x.2 hrun
    rw [hk.bound, ← hs.bound] at hmeaning
    refine (abreast_application (by decide) hempty hroot hl hf hargs ht.le hbind ht.le hs.ended
      (hs.bound.trans hs'.bound.symm) hmeaning hs.tokens hs'.tokens n n).imp ?_
    rintro v w r r' ⟨⟨hvw, -⟩, hr, hr'⟩
    exact ⟨hvw, hr, hr'⟩

section Rows

variable {n : Nat} {B : List String} {p e₀ e e' rest : List Token} {k s s' q : ParseState}
  {v : Tree}

/-- Behind a prelude, rows that may stand for each other make the same group. -/
theorem Interchange.abreast_block (h : Interchange e₀ e e') (hp : Balanced p) (hrest : rest ≠ [])
    (hk : InFront B (p ++ .symbol .semicolon :: (e₀ ++ .symbol .closeParen :: rest)) k)
    (hs : InFront B (p ++ .symbol .semicolon :: (e ++ .symbol .closeParen :: rest)) s)
    (hs' : InFront B (p ++ .symbol .semicolon :: (e' ++ .symbol .closeParen :: rest)) s')
    (hrun : (block (below n n)).run k = .ok (v, q)) :
    Abreast (block (below n n)) (block (below n n)) s s' fun x y r r' =>
      Moved x y ∧ r.tokens = rest ∧ r'.tokens = rest := by
  have hc : Upto .semicolon (p ++ [.symbol .semicolon]) := ⟨p, hp, rfl⟩
  have hbehind : ∀ us : List Token, us ++ .symbol .closeParen :: rest ≠ [] :=
    fun us => List.append_ne_nil_of_right_ne_nil us (List.cons_ne_nil _ _)
  rw [List.append_cons] at hk hs hs'
  rw [run_block] at hrun
  obtain ⟨r₀, steps, acc, hrun₀, hr₀, hended₀, hall⟩ :=
    exists_behind_prelude hc hk.ended hk.tokens (hbehind e₀) hrun
  have hshares := hs.shares hk (hbehind e) (hbehind e₀)
  have hshares' := hs'.shares hk (hbehind e') (hbehind e₀)
  have hsteps : ∀ {us : List Token} {s : ParseState},
      Shares (Noted s.tokens s.bound) (p ++ [.symbol .semicolon]) us (e₀ ++ .symbol .closeParen ::
        rest) s k → (p ++ [Token.symbol .semicolon]).length < s.later.length + 2 := by
    intro us s h
    have hlen := h.length_lt
    rw [length_tokens] at hlen
    omega
  rcases hall hshares .nil (hsteps hshares) with
    ⟨e, he, hdeep⟩ | ⟨r, steps₁, acc₁, hrun₁, h₁, hacc₁⟩
  · refine .of_deep ?_ hdeep
    rw [run_block, run_bind_of_error he]
  rcases hall hshares' .nil (hsteps hshares') with
    ⟨e, he, hdeep⟩ | ⟨r', steps₂, acc₂, hrun₂, h₂, hacc₂⟩
  · refine .of_deep_right ?_ hdeep
    rw [run_block, run_bind_of_error he]
  have hacc : List.Forall₂ Moved acc₁ acc₂ := Tree.unplacedList_eq_iff.1
    ((Tree.unplacedList_eq_iff.2 hacc₁).trans (Tree.unplacedList_eq_iff.2 hacc₂).symm)
  refine .of_run ((run_block _ s).trans (run_bind_congr hrun₁))
    ((run_block _ s').trans (run_bind_congr hrun₂)) ?_
  -- the item behind the prelude
  have hr₀ : InFront r₀.bound (e₀ ++ .symbol .closeParen :: rest) r₀ := ⟨hended₀, rfl, hr₀⟩
  have hr : InFront r₀.bound (e ++ .symbol .closeParen :: rest) r :=
    ⟨h₁.known.ended, h₁.bound, h₁.left⟩
  have hr' : InFront r₀.bound (e' ++ .symbol .closeParen :: rest) r' :=
    ⟨h₂.known.ended, h₂.bound, h₂.left⟩
  obtain ⟨x, hx⟩ := exists_run_item (h.opens₀.here_ne hr₀) hrun₀
  refine .of_run (run_bind_congr (run_blockFrom (h.opens.here_ne hr) _ _))
    (run_bind_congr (run_blockFrom (h.opens'.here_ne hr') _ _)) ?_
  rw [bind_assoc, bind_assoc]
  refine (h.abreast rfl hr₀ hr hr' hx).bind ?_
  rintro x y q q' ⟨hxy, hq, hq'⟩
  obtain ⟨hclose, hq⟩ := next_of_tokens hrest hq
  obtain ⟨hclose', hq'⟩ := next_of_tokens hrest hq'
  exact .of_ok (run_last_item hclose) (run_last_item hclose')
    ⟨moved_grouped (List.forall₂_reverse_iff.2 (.cons hxy hacc)), hq, hq'⟩

/-- A function whose first word was taken: its parameters, and the body between its braces. -/
theorem run_lambda {expr : Nat → Parser Tree} (h : s.here.token = .symbol .openParen) :
    (lambda expr).run s = (items parameter .closeParen >>= fun params =>
      expect .openBrace >>= fun _ => expr 0 >>= fun body => expect .closeBrace >>= fun _ =>
        pure (.lambda params body)).run s.next :=
  run_expect h

/-- Behind the same parameters, rows that may stand for each other make the same function. -/
theorem Interchange.abreast_lambda (h : Interchange e₀ e e') (hp : Balanced p) (hrest : rest ≠ [])
    (hk : InFront B (.symbol .openParen :: (p ++ .symbol .closeParen :: .symbol .openBrace ::
      (e₀ ++ .symbol .closeBrace :: rest))) k)
    (hs : InFront B (.symbol .openParen :: (p ++ .symbol .closeParen :: .symbol .openBrace ::
      (e ++ .symbol .closeBrace :: rest))) s)
    (hs' : InFront B (.symbol .openParen :: (p ++ .symbol .closeParen :: .symbol .openBrace ::
      (e' ++ .symbol .closeBrace :: rest))) s')
    (hrun : (lambda (below n n)).run k = .ok (v, q)) :
    Abreast (lambda (below n n)) (lambda (below n n)) s s' fun x y r r' =>
      Moved x y ∧ r.tokens = rest ∧ r'.tokens = rest := by
  rw [run_lambda hk.here] at hrun
  obtain ⟨params, q₀, hparams, hrun⟩ := exists_of_run_bind hrun
  refine .of_run (run_lambda hs.here) (run_lambda hs'.here) ?_
  have hk := hk.next Token.noConfusion
  have hs := hs.next Token.noConfusion
  have hs' := hs'.next Token.noConfusion
  -- every run reads the parameters that were read there
  have hgoes : ∀ {us : List Token} {s : ParseState},
      InFront B (p ++ .symbol .closeParen :: .symbol .openBrace :: us) s →
      Abreast (items parameter .closeParen) (items parameter .closeParen) s k.next fun xs ys r r' =>
        (List.Forall₂ Eq xs ys ∧ Shares (fun _ => True) [] (.symbol .openBrace :: us)
          (.symbol .openBrace :: (e₀ ++ .symbol .closeBrace :: rest)) r r') ∧ TakesNames s r := by
    intro us s hs
    rw [List.append_cons] at hs hk
    have hshares := hs.shares hk (List.cons_ne_nil _ _) (List.cons_ne_nil _ _)
    exact (exhausts_items (fun _ _ => trivial) goes_parameter ⟨p, hp, rfl⟩
      { hshares with known := trivial }).and_after (after_items_parameter hs.ended)
  refine (Abreast.through hparams (hgoes hs) (hgoes hs')).bind ?_
  rintro xs ys r r' ⟨⟨⟨hxs, hr⟩, hnames⟩, ⟨⟨hys, hr'⟩, hnames'⟩⟩
  obtain rfl : xs = params := List.forall₂_eq_eq_eq ▸ hxs
  obtain rfl : ys = xs := List.forall₂_eq_eq_eq ▸ hys
  have hnames₀ : TakesNames k.next q₀ := after_items_parameter hk.ended _ _ hparams
  have hq₀ : InFront q₀.bound _ q₀ := ⟨hnames₀.ended, rfl, hr.right⟩
  have hr : InFront q₀.bound _ r := ⟨hnames.ended, hr.bound, hr.left⟩
  have hr' : InFront q₀.bound _ r' := ⟨hnames'.ended, hr'.bound, hr'.left⟩
  rw [run_expect hq₀.here] at hrun
  obtain ⟨x, q, hx, -⟩ := exists_of_run_bind hrun
  refine .of_run (run_expect hr.here) (run_expect hr'.here) ?_
  refine (h.abreast rfl (hq₀.next Token.noConfusion) (hr.next Token.noConfusion)
    (hr'.next Token.noConfusion) hx).bind ?_
  rintro body body' j j' ⟨hbodies, hj, hj'⟩
  obtain ⟨hclose, hj⟩ := next_of_tokens hrest hj
  obtain ⟨hclose', hj'⟩ := next_of_tokens hrest hj'
  exact .of_run (run_expect hclose) (run_expect hclose')
    (abreast_pure ⟨congrArg (Tree.lambda ys) hbodies, hj, hj'⟩)

end Rows

/-- No operator is behind the operands. -/
theorem abreast_operators {n n' : Nat} {t : Token} {us : List Token} {v w : Tree}
    {r r' : ParseState} (ht : t.power = 0) (hvw : Moved v w) (hr : r.tokens = t :: us)
    (hr' : r'.tokens = t :: us) :
    Abreast (left >>= fun k => operationsFrom (below n) 0 k n v)
      (left >>= fun k => operationsFrom (below n') 0 k n' w) r r' fun v w r r' =>
        Moved v w ∧ r.tokens = t :: us ∧ r'.tokens = t :: us := by
  have hpower : ∀ {r : ParseState}, r.tokens = t :: us → r.here.token.power ≤ 0 := by
    intro r hr
    rw [(List.cons.inj hr).1]
    exact ht.le
  exact .of_ok (run_operators_of_le (hpower hr) _ _) (run_operators_of_le (hpower hr') _ _)
    ⟨hvw, hr, hr'⟩

/-- A function, and the operators behind it. -/
theorem run_below_function {n power : Nat} {s : ParseState}
    (hword : s.here.token = .name "function") (hopen : s.next.here.token = .symbol .openParen) :
    (below (n + 1) (n + 1) power).run s = (lambda (below n n) >>= fun first =>
      left >>= fun k => operationsFrom (below n) power k n first).run s.next := by
  refine run_below ?_
  rw [operand, run_take]
  simp only [hword]
  show (if (s.next.here.token == .symbol .openParen) = true then _ else _ : Parser Tree).run s.next
    = _
  rw [hopen, beq_self_eq_true, if_pos rfl]

/-- The row `( p ; e )`. -/
def groupRow (p e : List Token) : List Token :=
  .symbol .openParen :: (p ++ .symbol .semicolon :: (e ++ [.symbol .closeParen]))

/-- The row `function ( p ) { e }`. -/
def functionRow (p e : List Token) : List Token :=
  .name "function" :: .symbol .openParen ::
    (p ++ .symbol .closeParen :: .symbol .openBrace :: (e ++ [.symbol .closeBrace]))

section Closed

variable {p e₀ e e' : List Token}

/-- Rows that may stand for each other may do so behind a prelude in a group. -/
theorem Interchange.group (h : Interchange e₀ e e') (hp : Balanced p) :
    Interchange (groupRow p e₀) (groupRow p e) (groupRow p e') where
  opens₀ := ⟨_, _, rfl, by decide⟩
  opens := ⟨_, _, rfl, by decide⟩
  opens' := ⟨_, _, rfl, by decide⟩
  abreast := by
    intro n B t us k s s' x ht hk hs hs' hrun
    cases n with
    | zero => exact .left rfl
    | succ n =>
      simp only [groupRow, List.cons_append, List.append_assoc, List.nil_append] at hk hs hs'
      rw [run_below_group hk.here] at hrun
      obtain ⟨y, q, hy, -⟩ := exists_of_run_bind hrun
      refine .of_run (run_below_group hs.here) (run_below_group hs'.here) ?_
      refine (h.abreast_block hp (List.cons_ne_nil _ _) (hk.next Token.noConfusion)
        (hs.next Token.noConfusion) (hs'.next Token.noConfusion) hy).bind ?_
      rintro v w r r' ⟨hvw, hr, hr'⟩
      exact abreast_operators ht hvw hr hr'

/-- Rows that may stand for each other may do so in the body of a function. -/
theorem Interchange.function (h : Interchange e₀ e e') (hp : Balanced p) :
    Interchange (functionRow p e₀) (functionRow p e) (functionRow p e') where
  opens₀ := ⟨_, _, rfl, Token.noConfusion⟩
  opens := ⟨_, _, rfl, Token.noConfusion⟩
  opens' := ⟨_, _, rfl, Token.noConfusion⟩
  abreast := by
    intro n B t us k s s' x ht hk hs hs' hrun
    cases n with
    | zero => exact .left rfl
    | succ n =>
      simp only [functionRow, List.cons_append, List.append_assoc, List.nil_append] at hk hs hs'
      have hknext := hk.next Token.noConfusion
      have hnext := hs.next Token.noConfusion
      have hnext' := hs'.next Token.noConfusion
      rw [run_below_function hk.here hknext.here] at hrun
      obtain ⟨y, q, hy, -⟩ := exists_of_run_bind hrun
      refine .of_run (run_below_function hs.here hnext.here)
        (run_below_function hs'.here hnext'.here) ?_
      refine (h.abreast_lambda hp (List.cons_ne_nil _ _) hknext hnext hnext' hy).bind ?_
      rintro v w r r' ⟨hvw, hr, hr'⟩
      exact abreast_operators ht hvw hr hr'

end Closed

end Parser

end Reshape.Expression
