/-
# Two runs of the parser

Two runs of a parser go abreast as long as they read the same tokens with the same names bound:
they end with trees that differ in places at most, or with faults that do, unless one of them
comes to the nesting limit (`Abreast`).  What they have in common is a row of tokens up to a
symbol that ends every expression (`Upto`); what is behind it, and how many levels are left,
may differ.

Beside that an invariant of the first run is kept (`Shares`).  For expressions it says which
names are bound: those that were, and those that the tokens read so far bind (`Noted`).
-/
import Reshape.Proofs.Balance
import Reshape.Proofs.Placement

namespace Reshape.Expression

/-! ## Names that tokens bind -/

/-- The names that are bound where a row of tokens starts: the left side of a binding, or the
parameters of a function. -/
def boundHere : List Token → List String
  | .var x :: .symbol .bind :: _ => [x]
  | .name w :: .symbol .openParen :: rest =>
    if w == "function" then
      (rest.takeWhile (· != .symbol .closeParen)).filterMap Token.named?
    else []
  | _ => []

/-- The names that are bound in a row of tokens. -/
def boundIn (ts : List Token) : List String := ts.tails.flatMap boundHere

/-- A parenthesis that closes ends a list of parameters. -/
theorem boundHere_of_append_close {x : String} {us rest : List Token}
    (h : x ∈ boundHere (us ++ .symbol .closeParen :: rest)) : x ∈ boundHere us := by
  match us with
  | [] => cases h
  | [t] =>
    cases t with
    | var | name | number | string | symbol | done => cases h
  | t :: u :: us =>
    cases t with
    | var y =>
      cases u with
      | symbol o => cases o <;> exact h
      | var | name | number | string | done => exact h
    | name w =>
      cases u with
      | symbol o =>
        cases o with
        | openParen =>
          have hparams : ∀ us : List Token,
              (us ++ .symbol .closeParen :: rest).takeWhile (· != .symbol .closeParen) =
                us.takeWhile (· != .symbol .closeParen) := by
            intro us
            induction us with
            | nil => rfl
            | cons t us ih => rw [List.cons_append, List.takeWhile_cons, List.takeWhile_cons, ih]
          rw [List.cons_append, List.cons_append, boundHere, hparams] at h
          exact h
        | _ => exact h
      | var | name | number | string | done => exact h
    | number | string | symbol | done => exact h

namespace Parser

variable {α β γ δ : Type}

/-! ## Outcomes -/

/-- Two outcomes that are the same but for places: related results, or faults with one cause.
Nothing is said where one run came to the nesting limit. -/
inductive Parallel (R : α → β → Prop) : Except Fault α → Except Fault β → Prop
  | ok {x : α} {y : β} (h : R x y) : Parallel R (.ok x) (.ok y)
  | error {f g : Fault} (h : f.cause = g.cause) : Parallel R (.error f) (.error g)
  | left {f : Fault} {r : Except Fault β} (h : f.cause = .nestedTooDeep) :
      Parallel R (.error f) r
  | right {r : Except Fault α} {g : Fault} (h : g.cause = .nestedTooDeep) :
      Parallel R r (.error g)

theorem Parallel.of_ok {R : α → β → Prop} {x : α} {y : β} (h : Parallel R (.ok x) (.ok y)) :
    R x y := by
  cases h with
  | ok h => exact h

theorem Parallel.imp {R S : α → β → Prop} {r : Except Fault α} {r' : Except Fault β}
    (h : Parallel R r r') (hRS : ∀ x y, R x y → S x y) : Parallel S r r' := by
  cases h with
  | ok h => exact .ok (hRS _ _ h)
  | error h => exact .error h
  | left h => exact .left h
  | right h => exact .right h

/-- The two parsers have the same outcome from two states, but for places. -/
def Abreast (m : Parser α) (m' : Parser β) (s s' : ParseState)
    (Q : α → β → ParseState → ParseState → Prop) : Prop :=
  Parallel (fun x y => Q x.1 y.1 x.2 y.2) (m.run s) (m'.run s')

variable {s s' : ParseState} {m : Parser α} {m' : Parser β} {f : α → Parser γ} {f' : β → Parser δ}
  {P : α → β → ParseState → ParseState → Prop} {Q : γ → δ → ParseState → ParseState → Prop}

theorem abreast_pure {x : α} {y : β} (h : P x y s s') : Abreast (pure x) (pure y) s s' P :=
  .ok h

theorem abreast_throw {e e' : Fault} (h : e.cause = e'.cause) :
    Abreast (throw e : Parser α) (throw e' : Parser β) s s' P :=
  .error h

theorem Abreast.imp (h : Abreast m m' s s' P)
    {P' : α → β → ParseState → ParseState → Prop} (hP : ∀ x y t t', P x y t t' → P' x y t t') :
    Abreast m m' s s' P' :=
  Parallel.imp h fun _ _ => hP _ _ _ _

/-- Only what the two runs come to matters. -/
theorem Abreast.of_run {m₂ : Parser α} {m₂' : Parser β} {r r' : ParseState}
    (h : m.run s = m₂.run r) (h' : m'.run s' = m₂'.run r') (habreast : Abreast m₂ m₂' r r' P) :
    Abreast m m' s s' P := by
  unfold Abreast
  rw [h, h']
  exact habreast

theorem Abreast.of_ok {x : α} {y : β} {r r' : ParseState} (h : m.run s = .ok (x, r))
    (h' : m'.run s' = .ok (y, r')) (hP : P x y r r') : Abreast m m' s s' P := by
  unfold Abreast
  rw [h, h']
  exact .ok hP

theorem Abreast.of_deep {e : Fault} (h : m.run s = .error e) (he : e.cause = .nestedTooDeep) :
    Abreast m m' s s' P := by
  unfold Abreast
  rw [h]
  exact .left he

theorem Abreast.of_deep_right {e : Fault} (h : m'.run s' = .error e)
    (he : e.cause = .nestedTooDeep) : Abreast m m' s s' P := by
  unfold Abreast
  rw [h]
  exact .right he

theorem Abreast.bind (h : Abreast m m' s s' P)
    (hf : ∀ x y t t', P x y t t' → Abreast (f x) (f' y) t t' Q) :
    Abreast (m >>= f) (m' >>= f') s s' Q := by
  unfold Abreast at h ⊢
  rw [StateT.run_bind, StateT.run_bind]
  generalize m.run s = r at h ⊢
  generalize m'.run s' = r' at h ⊢
  cases h with
  | ok h => exact hf _ _ _ _ h
  | error h => exact .error h
  | left h => exact .left h
  | right h =>
    cases r with
    | ok x => exact .right h
    | error e => exact .right h

/-- Two runs that go abreast with a third one, which succeeds, go abreast with each other. -/
theorem Abreast.through {m₀ : Parser γ} {k q : ParseState} {z : γ} (hrun : m₀.run k = .ok (z, q))
    {P' : β → γ → ParseState → ParseState → Prop} {P : α → γ → ParseState → ParseState → Prop}
    (h : Abreast m m₀ s k P) (h' : Abreast m' m₀ s' k P') :
    Abreast m m' s s' fun x y t t' => P x z t q ∧ P' y z t' q := by
  unfold Abreast at h h' ⊢
  rw [hrun] at h h'
  generalize m.run s = r at h ⊢
  generalize m'.run s' = r' at h' ⊢
  cases h with
  | left h => exact .left h
  | ok h =>
    cases h' with
    | left h' => exact .right h'
    | ok h' => exact .ok ⟨h, h'⟩

/-- What is known after the first parser alone may be used. -/
theorem Abreast.and_after (h : Abreast m m' s s' P) {A : α → ParseState → Prop}
    (hm : After m s A) : Abreast m m' s s' fun x y t t' => P x y t t' ∧ A x t := by
  unfold Abreast at h ⊢
  have hm : ∀ r, m.run s = .ok r → A r.1 r.2 := fun r hr => hm r.1 r.2 hr
  generalize m.run s = r at h hm ⊢
  generalize m'.run s' = r' at h ⊢
  cases h with
  | ok h => exact .ok ⟨h, hm _ rfl⟩
  | error h => exact .error h
  | left h => exact .left h
  | right h => exact .right h

theorem abreast_failHere (hhere : s.here.token = s'.here.token) (cause : Token → Cause) :
    Abreast (failHere cause : Parser α) (failHere cause : Parser β) s s' P :=
  .error (congrArg cause hhere)

theorem abreast_get {g : ParseState → Parser γ} {g' : ParseState → Parser δ}
    (h : Abreast (g s) (g' s') s s' Q) : Abreast (do g (← get)) (do g' (← get)) s s' Q :=
  h

/-- Computations that do not use the state. -/
theorem abreast_lift {R : α → β → Prop} {x : Except Fault α} {y : Except Fault β}
    (h : Parallel R x y) :
    Abreast (liftM x : Parser α) (liftM y : Parser β) s s' fun v w t t' =>
      R v w ∧ t = s ∧ t' = s' := by
  cases h with
  | ok h => exact .ok ⟨h, rfl, rfl⟩
  | error h => exact .error h
  | left h => exact .left h
  | @right x _ h =>
    cases x with
    | ok _ => exact .right h
    | error _ => exact .right h

theorem abreast_take {g : Located → Parser γ} {g' : Located → Parser δ}
    (h : Abreast (g s.here) (g' s'.here) s.next s'.next Q) :
    Abreast (take >>= g) (take >>= g') s s' Q := by
  obtain ⟨here, later, bound⟩ := s
  obtain ⟨here', later', bound'⟩ := s'
  cases later <;> cases later' <;> exact h

theorem abreast_at? {o : Symbol} {g : Bool → Parser γ} {g' : Bool → Parser δ}
    (hhere : s.here.token = s'.here.token)
    (h : ∀ b, b = (s.here.token == .symbol o) → Abreast (g b) (g' b) s s' Q) :
    Abreast (at? o >>= g) (at? o >>= g') s s' Q := by
  have hg := h _ rfl
  show Abreast (g (s.here.token == .symbol o)) (g' (s'.here.token == .symbol o)) s s' Q
  rwa [← hhere]

theorem abreast_left {g : Nat → Parser γ} {g' : Nat → Parser δ}
    (h : Abreast (g s.tokens.length) (g' s'.tokens.length) s s' Q) :
    Abreast (left >>= g) (left >>= g') s s' Q := by
  rw [ParseState.tokens, ParseState.tokens, List.length_map, List.length_map] at h
  exact h

/-! ## Rows in common -/

/-- A balanced row and a symbol that ends it. -/
def Upto (z : Symbol) (c : List Token) : Prop := ∃ b, Balanced b ∧ c = b ++ [.symbol z]

/-- A symbol that ends every expression. -/
def Ending (z : Symbol) : Prop := z = .closeParen ∨ z = .semicolon

namespace Upto

variable {z : Symbol} {t : Token} {c : List Token}

theorem exists_cons (h : Upto z c) : ∃ t c', c = t :: c' := by
  obtain ⟨b, -, rfl⟩ := h
  cases b with
  | nil => exact ⟨_, _, rfl⟩
  | cons t b => exact ⟨_, _, rfl⟩

/-- A token that is neither the end nor a parenthesis is inside. -/
theorem tail (h : Upto z (t :: c)) (hparen : t.isParen = false) (hz : t ≠ .symbol z) :
    Upto z c := by
  obtain ⟨b, hb, hc⟩ := h
  cases hb with
  | nil => exact absurd (List.cons.inj hc).1 hz
  | cons _ hb => exact ⟨_, hb, (List.cons.inj hc).2⟩
  | group =>
    obtain ⟨rfl, -⟩ := List.cons.inj hc
    cases hparen

/-- A parenthesis that closes nothing inside is the end. -/
theorem eq_nil (h : Upto z (.symbol .closeParen :: c)) : c = [] := by
  obtain ⟨b, hb, hc⟩ := h
  cases hb with
  | nil => exact (List.cons.inj hc).2
  | cons ht _ =>
    obtain ⟨rfl, -⟩ := List.cons.inj hc
    cases ht
  | group => cases (List.cons.inj hc).1

/-- A parenthesis that opens is followed by its group. -/
theorem group (h : Upto z (.symbol .openParen :: c)) (hz : Ending z) :
    ∃ g d, c = g ++ d ∧ Upto .closeParen g ∧ Upto z d := by
  obtain ⟨b, hb, hc⟩ := h
  cases hb with
  | nil =>
    obtain ⟨hopen, -⟩ := List.cons.inj hc
    obtain rfl := Token.symbol.inj hopen
    rcases hz with h | h <;> cases h
  | cons ht _ =>
    obtain ⟨rfl, -⟩ := List.cons.inj hc
    cases ht
  | @group inner ts hinner hts =>
    refine ⟨inner ++ [.symbol .closeParen], ts ++ [.symbol z], ?_, ⟨_, hinner, rfl⟩, ⟨_, hts, rfl⟩⟩
    simpa using (List.cons.inj hc).2

end Upto

/-- The tokens left begin alike in two states, and the same names are bound.  `I` holds of the
first state. -/
structure Shares (I : ParseState → Prop) (c us us' : List Token) (s s' : ParseState) : Prop where
  left : s.tokens = c ++ us
  right : s'.tokens = c ++ us'
  more : us ≠ []
  more' : us' ≠ []
  bound : s.bound = s'.bound
  known : I s

namespace Shares

variable {I : ParseState → Prop} {c d us us' : List Token} {t : Token}

theorem here (h : Shares I (t :: c) us us' s s') : s.here.token = t :=
  (List.cons.inj h.left).1

theorem here' (h : Shares I (t :: c) us us' s s') : s'.here.token = t :=
  (List.cons.inj h.right).1

theorem here_eq (h : Shares I (t :: c) us us' s s') : s.here.token = s'.here.token :=
  h.here.trans h.here'.symm

/-- The state behind a token that is not the last. -/
theorem tokens_of_cons {ts : List Token} (hts : ts ≠ []) (h : s.tokens = t :: ts) :
    s.next.tokens = ts := by
  obtain ⟨here, later, bound⟩ := s
  obtain ⟨-, hlater⟩ := List.cons.inj h
  cases later with
  | nil => exact absurd hlater.symm hts
  | cons _ _ => exact hlater

theorem next (h : Shares I (t :: c) us us' s s') (hI : I s.next) :
    Shares I c us us' s.next s'.next where
  left := tokens_of_cons (List.append_ne_nil_of_right_ne_nil c h.more) h.left
  right := tokens_of_cons (List.append_ne_nil_of_right_ne_nil c h.more') h.right
  more := h.more
  more' := h.more'
  bound := by rw [s.next_bound, s'.next_bound, h.bound]
  known := hI

/-- The end of a row in common may count as what is behind it. -/
theorem inner (h : Shares I (c ++ d) us us' s s') : Shares I c (d ++ us) (d ++ us') s s' where
  left := by rw [h.left, List.append_assoc]
  right := by rw [h.right, List.append_assoc]
  more := List.append_ne_nil_of_right_ne_nil d h.more
  more' := List.append_ne_nil_of_right_ne_nil d h.more'
  bound := h.bound
  known := h.known

theorem outer (h : Shares I [] (d ++ us) (d ++ us') s s') (hus : us ≠ []) (hus' : us' ≠ []) :
    Shares I d us us' s s' :=
  ⟨h.left, h.right, hus, hus', h.bound, h.known⟩

theorem length_lt (h : Shares I c us us' s s') : c.length < s.tokens.length := by
  rw [h.left, List.length_append]
  exact Nat.lt_add_of_pos_right (List.length_pos_iff.2 h.more)

theorem length_lt' (h : Shares I c us us' s s') : c.length < s'.tokens.length := by
  rw [h.right, List.length_append]
  exact Nat.lt_add_of_pos_right (List.length_pos_iff.2 h.more')

end Shares

/-- What is left in common of a row, in the states behind. -/
def Onward (I : ParseState → Prop) (z : Symbol) (c us us' : List Token) (s s' : ParseState) :
    Prop :=
  ∃ c', Upto z c' ∧ c'.length ≤ c.length ∧ Shares I c' us us' s s'

/-- The parsers take no more than the row in common, and their results are related. -/
def Goes (I : ParseState → Prop) (R : α → β → Prop) (m : Parser α) (m' : Parser β) : Prop :=
  ∀ {z c us us' s s'}, Ending z → Upto z c → Shares I c us us' s s' →
    Abreast m m' s s' fun x y t t' => R x y ∧ Onward I z c us us' t t'

/-- The parsers take the row in common with the parenthesis that ends it. -/
def Exhausts (I : ParseState → Prop) (R : α → β → Prop) (m : Parser α) (m' : Parser β) : Prop :=
  ∀ {c us us' s s'}, Upto .closeParen c → Shares I c us us' s s' →
    Abreast m m' s s' fun x y t t' => R x y ∧ Shares I [] us us' t t'

/-! ## Steps along a row in common -/

theorem Ending.ne {z : Symbol} (hz : Ending z) {t : Token} (hclose : t ≠ .symbol .closeParen)
    (hsemicolon : t ≠ .symbol .semicolon) : t ≠ .symbol z := by
  rcases hz with rfl | rfl
  · exact hclose
  · exact hsemicolon

section Steps

variable {I : ParseState → Prop} (hI : ∀ s, I s → I s.next) {z o : Symbol} {t : Token}
  {c us us' : List Token}

include hI

theorem abreast_accept {g : Bool → Parser γ} {g' : Bool → Parser δ}
    (h : Shares I (t :: c) us us' s s')
    (hyes : t = .symbol o → Shares I c us us' s.next s'.next →
      Abreast (g true) (g' true) s.next s'.next Q)
    (hno : t ≠ .symbol o → Abreast (g false) (g' false) s s' Q) :
    Abreast (accept o >>= g) (accept o >>= g') s s' Q := by
  have hnext := h.next (hI s h.known)
  by_cases ht : t = .symbol o
  · have hp : Abreast (accept o) (accept o) s s' fun x y r r' =>
        (x = true ∧ y = true) ∧ r = s.next ∧ r' = s'.next := by
      refine abreast_at? h.here_eq fun b hb => ?_
      rw [h.here, ht, beq_self_eq_true] at hb
      subst hb
      exact abreast_take (abreast_pure ⟨⟨rfl, rfl⟩, rfl, rfl⟩)
    refine hp.bind ?_
    rintro _ _ _ _ ⟨⟨rfl, rfl⟩, rfl, rfl⟩
    exact hyes ht hnext
  · have hp : Abreast (accept o) (accept o) s s' fun x y r r' =>
        (x = false ∧ y = false) ∧ r = s ∧ r' = s' := by
      refine abreast_at? h.here_eq fun b hb => ?_
      rw [h.here, beq_eq_false_iff_ne.2 ht] at hb
      subst hb
      exact abreast_pure ⟨⟨rfl, rfl⟩, rfl, rfl⟩
    refine hp.bind ?_
    rintro _ _ _ _ ⟨⟨rfl, rfl⟩, rfl, rfl⟩
    exact hno ht

theorem abreast_expect {g : Unit → Parser γ} {g' : Unit → Parser δ}
    (h : Shares I (t :: c) us us' s s')
    (hyes : t = .symbol o → Shares I c us us' s.next s'.next →
      Abreast (g ()) (g' ()) s.next s'.next Q) :
    Abreast (expect o >>= g) (expect o >>= g') s s' Q := by
  have hp : Abreast (expect o) (expect o) s s' fun _ _ r r' =>
      t = .symbol o ∧ r = s.next ∧ r' = s'.next := by
    refine abreast_at? h.here_eq fun b hb => ?_
    rw [h.here] at hb
    cases b with
    | true => exact abreast_take (abreast_pure ⟨beq_iff_eq.1 hb.symm, rfl, rfl⟩)
    | false => exact abreast_failHere h.here_eq _
  refine hp.bind ?_
  rintro _ _ _ _ ⟨ht, rfl, rfl⟩
  exact hyes ht (h.next (hI s h.known))

/-! ## Rows -/

/-- Items in step make rows in step.  What is left in common when the closing symbol was taken
is for `K` to say. -/
theorem abreast_itemsFrom {R : α → β → Prop} {item : Parser α} {item' : Parser β} {close : Symbol}
    {K : List Token → Prop} (hitem : Goes I R item item') (hz : Ending z)
    (hK : ∀ {c}, Upto z (.symbol close :: c) → K c) {steps steps' : Nat} {acc : List α}
    {acc' : List β} (hc : Upto z c) (h : Shares I c us us' s s') (hsteps : c.length < steps)
    (hsteps' : c.length < steps') :
    Abreast (itemsFrom item close steps acc) (itemsFrom item' close steps' acc') s s'
      fun xs ys r r' => (∃ vs ws, xs = acc.reverse ++ vs ∧ ys = acc'.reverse ++ ws ∧
          List.Forall₂ R vs ws) ∧
        ∃ c', K c' ∧ c'.length ≤ c.length ∧ Shares I c' us us' r r' := by
  -- on the steps of the first run, each of which takes an item and a comma
  induction steps generalizing steps' acc acc' c s s' with
  | zero => exact absurd hsteps (Nat.not_lt_zero _)
  | succ steps ih =>
    obtain ⟨steps', rfl⟩ := Nat.exists_eq_add_one_of_ne_zero (Nat.ne_zero_of_lt hsteps')
    refine (hitem hz hc h).bind ?_
    rintro x y r r' ⟨hxy, c', hc', hlen, h'⟩
    obtain ⟨t, d, rfl⟩ := hc'.exists_cons
    rw [List.length_cons] at hlen
    refine abreast_accept hI h' (fun ht hnext => ?_) fun _ => ?_
    · -- more items
      subst ht
      have hd := hc'.tail rfl (hz.ne (by decide) (by decide))
      refine (ih hd hnext (by omega) (by omega)).imp ?_
      rintro xs ys q q' ⟨⟨vs, ws, rfl, rfl, hvs⟩, c'', hK'', hlen'', h''⟩
      refine ⟨⟨x :: vs, y :: ws, ?_, ?_, .cons hxy hvs⟩, c'', hK'', by omega, h''⟩
      · rw [List.reverse_cons, List.append_assoc, List.singleton_append]
      · rw [List.reverse_cons, List.append_assoc, List.singleton_append]
    · -- the last one
      refine abreast_expect hI h' fun ht hnext => abreast_pure ?_
      subst ht
      refine ⟨⟨[x], [y], List.reverse_cons, List.reverse_cons, .cons hxy .nil⟩, d, hK hc', ?_,
        hnext⟩
      omega

theorem abreast_items {R : α → β → Prop} {item : Parser α} {item' : Parser β} {close : Symbol}
    {K : List Token → Prop} (hitem : Goes I R item item') (hz : Ending z)
    (hK : ∀ {c}, Upto z (.symbol close :: c) → K c) (hc : Upto z c)
    (h : Shares I c us us' s s') :
    Abreast (items item close) (items item' close) s s' fun xs ys r r' =>
      List.Forall₂ R xs ys ∧ ∃ c', K c' ∧ c'.length ≤ c.length ∧ Shares I c' us us' r r' := by
  obtain ⟨t, d, rfl⟩ := hc.exists_cons
  refine abreast_accept hI h (fun ht hnext => ?_) fun _ => ?_
  · subst ht
    exact abreast_pure ⟨.nil, d, hK hc, Nat.le_succ _, hnext⟩
  · refine abreast_left ((abreast_itemsFrom hI hitem hz hK hc h h.length_lt h.length_lt').imp ?_)
    rintro xs ys r r' ⟨⟨vs, ws, rfl, rfl, hvs⟩, h'⟩
    exact ⟨hvs, h'⟩

/-- A row that ends with a bracket stays inside the row in common. -/
theorem goes_items {R : α → β → Prop} {item : Parser α} {item' : Parser β} {close : Symbol}
    (hitem : Goes I R item item') (hparen : (Token.symbol close).isParen = false)
    (hclose : close ≠ .semicolon) : Goes I (List.Forall₂ R) (items item close)
      (items item' close) := by
  intro z c us us' s s' hz hc h
  refine abreast_items hI hitem hz (fun hc => hc.tail hparen (hz.ne ?_ ?_)) hc h
  · rintro hsame
    rw [hsame] at hparen
    cases hparen
  · exact fun hsame => hclose (Token.symbol.inj hsame)

/-- A row that ends with a parenthesis ends the row in common. -/
theorem exhausts_items {R : α → β → Prop} {item : Parser α} {item' : Parser β}
    (hitem : Goes I R item item') : Exhausts I (List.Forall₂ R) (items item .closeParen)
      (items item' .closeParen) := by
  intro c us us' s s' hc h
  refine (abreast_items hI hitem (Or.inl rfl) (K := (· = [])) Upto.eq_nil hc h).imp ?_
  rintro xs ys r r' ⟨hxs, c', rfl, -, h'⟩
  exact ⟨hxs, h'⟩

end Steps

/-- A group is taken with its parenthesis out of the row in common. -/
theorem Exhausts.group {I : ParseState → Prop} {R : α → β → Prop} (hm : Exhausts I R m m')
    {z : Symbol} {c us us' : List Token} (hz : Ending z) (hc : Upto z (.symbol .openParen :: c))
    (h : Shares I c us us' s s') :
    Abreast m m' s s' fun x y t t' => R x y ∧ Onward I z c us us' t t' := by
  obtain ⟨g, d, rfl, hg, hd⟩ := hc.group hz
  refine (hm hg h.inner).imp ?_
  rintro x y t t' ⟨hxy, h'⟩
  refine ⟨hxy, d, hd, ?_, h'.outer h.more h.more'⟩
  rw [List.length_append]
  omega

end Parser

end Reshape.Expression
