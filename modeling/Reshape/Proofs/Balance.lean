/-
# Groups and their parentheses

A row of tokens is *balanced* if every parenthesis that is opened in it is closed in it, and
none that was not.  Every parser takes a balanced row (`eats_below`), and the parser of a group
takes one and the parenthesis behind it (`eats_block`).  There is only one way to do that
(`Balanced.unique`), so where a group ends is told by the tokens alone, and the parser of what
is inside cannot stop earlier or later.
-/
import Mathlib.Tactic
import Reshape.Proofs.Names
import Reshape.Proofs.Taking

namespace Reshape.Expression

/-! ## Balanced rows -/

/-- Whether a token opens or closes a group. -/
def Token.isParen : Token → Bool
  | .symbol .openParen | .symbol .closeParen => true
  | _ => false

/-- An operator is no parenthesis. -/
theorem Token.isParen_of_operator? {t : Token} {op : Operator} (h : t.operator? = some op) :
    t.isParen = false := by
  unfold isParen
  split
  · cases h
  · cases h
  · rfl

/-- A row of tokens in which every group that is opened is closed, and no other one. -/
inductive Balanced : List Token → Prop
  | nil : Balanced []
  | cons {t : Token} {ts : List Token} (ht : t.isParen = false) (hts : Balanced ts) :
      Balanced (t :: ts)
  | group {inner ts : List Token} (hinner : Balanced inner) (hts : Balanced ts) :
      Balanced (.symbol .openParen :: (inner ++ .symbol .closeParen :: ts))

namespace Balanced

variable {ts us : List Token}

theorem append (hts : Balanced ts) (hus : Balanced us) : Balanced (ts ++ us) := by
  induction hts with
  | nil => exact hus
  | cons ht _ ih => exact ih.cons ht
  | group hinner _ _ ih =>
    rw [List.cons_append, List.append_assoc, List.cons_append]
    exact hinner.group ih

/-- The group that a balanced row is inside of ends behind it, and nowhere else. -/
theorem unique (hts : Balanced ts) (hus : Balanced us) {rest rest' : List Token}
    (h : ts ++ .symbol .closeParen :: rest = us ++ .symbol .closeParen :: rest') :
    ts = us ∧ rest = rest' := by
  induction hts generalizing us rest rest' with
  | nil =>
    cases hus with
    | nil => exact ⟨rfl, (List.cons.inj h).2⟩
    | cons hu _ =>
      obtain ⟨rfl, -⟩ := List.cons.inj h
      cases hu
    | group => cases (List.cons.inj h).1
  | cons ht _ ih =>
    cases hus with
    | nil =>
      obtain ⟨rfl, -⟩ := List.cons.inj h
      cases ht
    | cons _ hus =>
      rw [List.cons_append, List.cons_append] at h
      obtain ⟨rfl, hrest⟩ := List.cons.inj h
      obtain ⟨rfl, rfl⟩ := ih hus hrest
      exact ⟨rfl, rfl⟩
    | group =>
      obtain ⟨rfl, -⟩ := List.cons.inj h
      cases ht
  | group _ _ ihinner ih =>
    cases hus with
    | nil => cases (List.cons.inj h).1
    | cons hu _ =>
      obtain ⟨rfl, -⟩ := List.cons.inj h
      cases hu
    | group hinner' hus =>
      -- the group that is opened first ends at the same place in both
      simp only [List.cons_append, List.append_assoc] at h
      obtain ⟨rfl, hrest⟩ := ihinner hinner' (List.cons.inj h).2
      obtain ⟨rfl, rfl⟩ := ih hus hrest
      exact ⟨rfl, rfl⟩

end Balanced

/-! ## What a parser eats -/

namespace ParseState

variable {s : ParseState}

/-- The end mark is the last of the tokens left, and no other token is. -/
def Ended (s : ParseState) : Prop := Expression.Ended (s.here :: s.later)

/-- A token that is not the end mark has others behind it. -/
theorem tokens_next (hs : s.Ended) (h : s.here.token ≠ .done) :
    s.tokens = s.here.token :: s.next.tokens ∧ s.next.Ended := by
  obtain ⟨here, later, bound⟩ := s
  cases later with
  | nil => exact absurd (Expression.Ended.token_of_singleton hs) h
  | cons t later => exact ⟨rfl, Expression.Ended.tail hs⟩

theorem tokens_next_symbol {o : Symbol} (hs : s.Ended) (ho : (s.here.token == .symbol o) = true) :
    s.tokens = .symbol o :: s.next.tokens ∧ s.next.Ended := by
  have ho : s.here.token = .symbol o := beq_iff_eq.1 ho
  rw [← ho]
  exact tokens_next hs (by rw [ho]; exact Token.noConfusion)

end ParseState

namespace Parser

variable {α β : Type} {s : ParseState} {ts close : List Token} {m : Parser α} {f : α → Parser β}

/-- Of the tokens `ts`, the parser takes a balanced row and then `close`. -/
def Eats (ts close : List Token) (m : Parser α) (s : ParseState) : Prop :=
  After m s fun _ s' => s'.Ended ∧
    ∃ c, Balanced c ∧ ts = c ++ (close ++ s'.tokens)

/-- What stops at the state it starts from has eaten nothing. -/
theorem eats_stay (hs : s.Ended) (h : After m s fun _ s' => s' = s) :
    Eats s.tokens [] m s := by
  refine h.imp ?_
  rintro _ _ rfl
  exact ⟨hs, [], .nil, rfl⟩

theorem eats_pure {x : α} (hs : s.Ended) : Eats s.tokens [] (pure x) s :=
  eats_stay hs (after_pure rfl)

namespace Eats

theorem bind (hm : Eats ts [] m s)
    (hf : ∀ x s', s'.Ended → Eats s'.tokens close (f x) s') :
    Eats ts close (m >>= f) s := by
  refine after_bind (After.imp hm ?_)
  rintro x s' ⟨hs', c, hc, rfl⟩
  refine After.imp (hf x s' hs') ?_
  rintro y s'' ⟨hs'', c', hc', hrest⟩
  refine ⟨hs'', c ++ c', hc.append hc', ?_⟩
  rw [List.nil_append, hrest, List.append_assoc]

/-- A parser that makes something of what another one yields. -/
theorem map {g : α → β} (hm : Eats ts close m s) :
    Eats ts close (do let x ← m; return g x) s := by
  refine after_bind (After.imp hm ?_)
  rintro x s' hx
  exact after_pure hx

/-- A token that is no parenthesis is taken first. -/
theorem cons {t : Token} (ht : t.isParen = false) (hm : Eats ts close m s) :
    Eats (t :: ts) close m s := by
  refine After.imp hm ?_
  rintro _ s' ⟨hs', c, hc, rfl⟩
  exact ⟨hs', t :: c, hc.cons ht, rfl⟩

/-- The parenthesis that opens a group is taken first. -/
theorem group (hm : Eats ts [.symbol .closeParen] m s) :
    Eats (.symbol .openParen :: ts) [] m s := by
  refine After.imp hm ?_
  rintro _ s' ⟨hs', c, hc, rfl⟩
  refine ⟨hs', _, hc.group .nil, ?_⟩
  simp

/-- What ends with a token that is no parenthesis is balanced. -/
theorem finish {t : Token} (ht : t.isParen = false) (hm : Eats ts [t] m s) : Eats ts [] m s := by
  refine After.imp hm ?_
  rintro _ s' ⟨hs', c, hc, rfl⟩
  refine ⟨hs', c ++ [t], hc.append (.cons ht .nil), ?_⟩
  simp

end Eats

theorem eats_take {f : Located → Parser β} (hs : s.Ended)
    (hdone : s.here.token ≠ .done)
    (hf : s.next.Ended →
      Eats (s.here.token :: s.next.tokens) close (f s.here) s.next) :
    Eats s.tokens close (take >>= f) s := by
  obtain ⟨htokens, hnext⟩ := ParseState.tokens_next hs hdone
  refine after_take_next ?_
  rw [htokens]
  exact hf hnext

variable {o : Symbol}

theorem eats_accept {f : Bool → Parser β} (hs : s.Ended)
    (hyes : s.next.Ended →
      Eats (.symbol o :: s.next.tokens) close (f true) s.next)
    (hno : Eats s.tokens close (f false) s) : Eats s.tokens close (accept o >>= f) s := by
  refine after_bind (after_at? ?_)
  split
  · rename_i ho
    obtain ⟨htokens, hnext⟩ := ParseState.tokens_next_symbol hs ho
    refine after_take_next (after_pure ?_)
    rw [htokens]
    exact hyes hnext
  · exact after_pure hno

theorem eats_expect {f : Unit → Parser β} (hs : s.Ended)
    (hf : s.next.Ended →
      Eats (.symbol o :: s.next.tokens) close (f ()) s.next) :
    Eats s.tokens close (expect o >>= f) s := by
  refine after_bind (after_at? ?_)
  split
  · rename_i ho
    obtain ⟨htokens, hnext⟩ := ParseState.tokens_next_symbol hs ho
    refine after_take_next (after_pure ?_)
    rw [htokens]
    exact hf hnext
  · exact after_failHere

/-- The symbol at the end of a row. -/
theorem eats_close {f : Unit → Parser β} (hs : s.Ended)
    (hf : ∀ s', After (f ()) s' fun _ s'' => s'' = s') :
    Eats s.tokens [.symbol o] (expect o >>= f) s := by
  refine after_bind (after_at? ?_)
  split
  · rename_i ho
    obtain ⟨htokens, hnext⟩ := ParseState.tokens_next_symbol hs ho
    refine after_take_next (after_pure (After.imp (hf s.next) ?_))
    rintro _ _ rfl
    exact ⟨hnext, [], .nil, by rw [htokens]; rfl⟩
  · exact after_failHere

/-! ## Rows -/

theorem eats_itemsFrom {item : Parser α} {o : Symbol}
    (hitem : ∀ s, s.Ended → Eats s.tokens [] item s) (steps : Nat)
    (acc : List α) (hs : s.Ended) :
    Eats s.tokens [.symbol o] (itemsFrom item o steps acc) s := by
  induction steps generalizing acc s with
  | zero => exact after_failHere
  | succ steps ih =>
    refine (hitem s hs).bind fun v s' hs' => ?_
    refine eats_accept hs' (fun hnext => (ih _ hnext).cons rfl) ?_
    exact eats_close hs' fun _ => after_pure rfl

theorem eats_items {item : Parser α} {o : Symbol}
    (hitem : ∀ s, s.Ended → Eats s.tokens [] item s)
    (hs : s.Ended) : Eats s.tokens [.symbol o] (items item o) s := by
  refine eats_accept hs (fun hnext => after_pure ⟨hnext, [], .nil, rfl⟩) ?_
  exact after_left (eats_itemsFrom hitem _ [] hs)

/-! ## Expressions -/

section Expressions

variable {expr : Nat → Parser Tree}
variable (hexpr : ∀ power s, s.Ended → Eats s.tokens [] (expr power) s)

include hexpr

theorem eats_entry (hs : s.Ended) : Eats s.tokens [] (entry expr) s := by
  refine (hexpr 0 s hs).bind fun key s' hs' => eats_expect hs' fun hs' => ?_
  exact (hexpr 0 _ hs').map.cons rfl

theorem eats_blockFrom (steps : Nat) (acc : List Tree) (hs : s.Ended) :
    Eats s.tokens [] (blockFrom expr steps acc) s := by
  induction steps generalizing acc s with
  | zero => exact after_failHere
  | succ steps ih =>
    refine after_at? ?_
    split
    · exact eats_pure hs
    · refine (hexpr 0 s hs).bind fun v s' hs' => ?_
      exact eats_accept hs' (fun hnext => (ih _ hnext).cons rfl) (eats_pure hs')

/-- **A group takes a balanced row and the parenthesis behind it.** -/
theorem eats_block (hs : s.Ended) :
    Eats s.tokens [.symbol .closeParen] (block expr) s := by
  refine after_left ((eats_blockFrom hexpr _ [] hs).bind fun items s' hs' => ?_)
  refine eats_close hs' fun s'' => ?_
  split
  · split
    · exact after_pure rfl
    · exact after_pure rfl
  · exact after_pure rfl

omit hexpr in
theorem eats_parameter (hs : s.Ended) : Eats s.tokens [] parameter s := by
  refine after_take_next ?_
  split
  · rename_i name htoken
    obtain ⟨htokens, hnext⟩ := ParseState.tokens_next hs (by rw [htoken]; exact Token.noConfusion)
    split
    · exact after_throw
    · refine after_pure ⟨hnext, [s.here.token], ?_, htokens⟩
      exact .cons (by rw [htoken]; rfl) .nil
  · exact after_throw

theorem eats_lambda (hs : s.Ended) : Eats s.tokens [] (lambda expr) s := by
  refine eats_expect hs fun hs => ?_
  refine (eats_items (fun _ hs => eats_parameter hs) hs).group.bind fun params s hs => ?_
  refine eats_expect hs fun hs => .cons rfl ?_
  refine (hexpr 0 _ hs).bind fun body s' hs' => ?_
  exact .finish rfl (eats_close hs' fun _ => after_pure rfl)

omit hexpr in
theorem eats_named (name : String) (position : Nat) (hs : s.Ended) :
    Eats s.tokens [] (named name position) s := by
  refine eats_stay hs (after_get ?_)
  split
  · exact after_pure rfl
  · split
    · exact after_pure rfl
    · refine after_at? ?_
      split
      · exact after_throw
      · exact after_throw

theorem eats_variableUse (name : String) (position : Nat) (hs : s.Ended) :
    Eats s.tokens [] (variableUse expr name position) s := by
  refine after_at? ?_
  split
  · exact after_pure ⟨hs, [], .nil, rfl⟩
  · refine (eats_named name position hs).bind fun callee s hs => ?_
    refine eats_accept hs (fun hs => ?_) (eats_pure hs)
    exact (eats_items (fun s hs => hexpr 0 s hs) hs).group.bind fun args s hs => eats_pure hs

theorem eats_operand (hs : s.Ended) : Eats s.tokens [] (operand expr) s := by
  by_cases hdone : s.here.token = .done
  · refine after_take_next ?_
    rw [hdone]
    exact after_throw
  · refine eats_take hs hdone fun hnext => ?_
    -- a token that is an operand by itself
    have hleaf : ∀ {t : Token} (u : Tree), t.isParen = false →
        Eats (t :: s.next.tokens) [] (pure u) s.next :=
      fun u ht => (eats_pure hnext).cons ht
    split
    · rename_i htoken
      rw [htoken]
      exact hleaf _ rfl
    · rename_i htoken
      rw [htoken]
      exact hleaf _ rfl
    · rename_i name htoken
      rw [htoken]
      split_ifs
      · refine after_at? ?_
        split
        · exact (eats_lambda hexpr hnext).cons rfl
        · exact hleaf _ rfl
      · exact hleaf _ rfl
    · rename_i name htoken
      rw [htoken]
      split_ifs
      · exact hleaf _ rfl
      · exact hleaf _ rfl
      · exact (eats_variableUse hexpr _ _ hnext).cons rfl
    · -- a minus sign
      rename_i htoken
      rw [htoken]
      exact (hexpr _ _ hnext).map.cons rfl
    · -- a group
      rename_i htoken
      rw [htoken]
      exact (eats_block hexpr hnext).group
    · -- an array
      rename_i htoken
      rw [htoken]
      exact ((eats_items (fun s hs => hexpr 0 s hs) hnext).finish rfl).map.cons rfl
    · -- an object
      rename_i htoken
      rw [htoken]
      exact ((eats_items (fun s hs => eats_entry hexpr hs) hnext).finish rfl).map.cons rfl
    · exact after_throw

theorem eats_operation (left : Tree) (hs : s.Ended) :
    Eats s.tokens [] (operation expr left) s := by
  by_cases hdone : s.here.token = .done
  · refine after_take_next ?_
    rw [hdone]
    exact after_throw
  · refine eats_take hs hdone fun hnext => ?_
    split
    · -- a step
      rename_i htoken
      rw [htoken]
      exact (hexpr _ _ hnext).map.cons rfl
    · -- a predicate
      rename_i htoken
      rw [htoken]
      refine .cons rfl (after_at? ?_)
      split
      · exact after_bind after_failHere
      · refine (hexpr 0 _ hnext).bind fun predicate s' hs' => ?_
        exact .finish rfl (eats_close hs' fun _ => after_pure rfl)
    · -- a condition
      rename_i htoken
      rw [htoken]
      refine .cons rfl ((hexpr 0 _ hnext).bind fun yes s' hs' => ?_)
      exact eats_accept hs' (fun hs => (hexpr 0 _ hs).map.cons rfl) (eats_pure hs')
    · -- a binding
      rename_i htoken
      rw [htoken]
      split
      · exact (hexpr _ _ hnext).map.cons rfl
      · exact after_throw
    · -- a chain
      rename_i htoken
      rw [htoken]
      refine .cons rfl ((hexpr _ _ hnext).bind fun right s' hs' => ?_)
      exact eats_stay hs' (after_lift fun _ _ => rfl)
    · exact after_throw
    · split
      · rename_i op hop
        exact (hexpr _ _ hnext).map.cons (Token.isParen_of_operator? hop)
      · exact after_throw

end Expressions

theorem eats_operationsFrom {below : Nat → Nat → Parser Tree}
    (hbelow : ∀ levels power s, s.Ended → Eats s.tokens [] (below levels power) s)
    (power steps levels : Nat) (left : Tree) (hs : s.Ended) :
    Eats s.tokens [] (operationsFrom below power steps levels left) s := by
  induction steps generalizing levels left s with
  | zero => exact eats_pure hs
  | succ steps ih =>
    have hstep : ∀ levels, Eats s.tokens [] (operation (below levels) left) s :=
      fun levels => eats_operation (hbelow levels) left hs
    refine after_get ?_
    split
    · refine after_at? ?_
      split
      · exact (hstep levels).bind fun t s' hs' => ih levels t hs'
      · cases levels with
        | zero => exact after_failHere
        | succ levels => exact (hstep levels).bind fun t s' hs' => ih levels t hs'
    · exact eats_pure hs

/-- **An expression takes a balanced row.** -/
theorem eats_below (n levels power : Nat) (hs : s.Ended) :
    Eats s.tokens [] (below n levels power) s := by
  induction n generalizing levels power s with
  | zero => exact after_failHere
  | succ n ih =>
    have ih' := fun levels power s (hs : ParseState.Ended s) => ih levels power hs
    rw [below]
    split
    · exact ih levels power hs
    · refine (eats_operand (ih' n) hs).bind fun first s' hs' => ?_
      exact after_left (eats_operationsFrom ih' power _ n first hs')

/-- **A group ends where its parenthesis is closed.** -/
theorem after_group (n levels : Nat) (hs : s.Ended) {inner rest : List Token}
    (hinner : Balanced inner) (htokens : s.tokens = inner ++ .symbol .closeParen :: rest) :
    After (block (below n levels)) s fun _ s' => s'.Ended ∧ s'.tokens = rest := by
  refine After.imp (eats_block (fun power _ hs => eats_below n levels power hs) hs) ?_
  rintro t s' ⟨hs', c, hc, hsplit⟩
  rw [htokens] at hsplit
  exact ⟨hs', (hinner.unique hc hsplit).2.symm⟩

end Parser

end Reshape.Expression
