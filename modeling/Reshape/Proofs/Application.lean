/-
# Chains are calls

The chain `(l) ~> $f(a)` is the call `$f((l), a)`.  The parser comes to the two on different ways:
in the chain the operand is read first and the function looked up behind it, and the operand is
put before the arguments when they all have been read; in the call the function is looked up
first.  As long as nothing in `l` binds `$f`, the operand is read with the same names bound, and
so are the arguments (`abreast_application`).
-/
import Reshape.Proofs.InStep

namespace Reshape.Expression

/-- A balanced row starts with no parenthesis that closes. -/
theorem Balanced.head_ne {t : Token} {ts : List Token} (h : Balanced (t :: ts)) :
    t ≠ .symbol .closeParen := by
  rintro rfl
  cases h with
  | cons ht _ => cases ht

namespace Parser

open Expression.Tree (Moved)

variable {α β : Type} {s : ParseState} {o : Symbol}

/-! ## What a name means -/

/-- What a name stands for where these names are bound. -/
def meaning? (bound : List String) (name : String) : Option Tree :=
  if bound.contains name then some (.var name) else (Builtin.ofName? name).map .builtin

/-- A name keeps its meaning unless it is bound. -/
theorem meaning?_congr {bound bound' : List String} {name : String}
    (h : name ∈ bound ↔ name ∈ bound') : meaning? bound name = meaning? bound' name := by
  have hcontains : bound.contains name = bound'.contains name := by
    rw [Bool.eq_iff_iff, List.contains_iff_mem, List.contains_iff_mem, h]
  rw [meaning?, meaning?, hcontains]

theorem run_named {name : String} {callee : Tree} (h : meaning? s.bound name = some callee)
    (p : Nat) : (named name p).run s = .ok (callee, s) := by
  unfold meaning? at h
  show (if s.bound.contains name = true then pure (.var name) else _ : Parser Tree).run s = _
  split at h
  · rename_i hbound
    rw [if_pos hbound, ← Option.some.inj h]
    rfl
  · rename_i hbound
    obtain ⟨f, hf, rfl⟩ := Option.map_eq_some_iff.1 h
    rw [if_neg hbound, hf]
    rfl

/-- A name that was taken for something has a meaning. -/
theorem after_named_meaning (name : String) (p : Nat) :
    After (named name p) s fun _ _ => ∃ callee, meaning? s.bound name = some callee := by
  refine after_get ?_
  unfold meaning?
  split
  · exact after_pure ⟨_, rfl⟩
  · split
    · rename_i f hf
      refine after_pure ⟨.builtin f, ?_⟩
      rw [hf]
      rfl
    · refine after_at? ?_
      split
      · exact after_throw
      · exact after_throw

/-! ## Steps of one run -/

/-- The row that a state has left is behind the next token. -/
theorem next_of_tokens {t : Token} {ts : List Token} (hts : ts ≠ []) (h : s.tokens = t :: ts) :
    s.here.token = t ∧ s.next.tokens = ts :=
  ⟨(List.cons.inj h).1, Shares.tokens_of_cons hts h⟩

theorem ended_next {t : Token} (hs : s.Ended) (h : s.here.token = t) (ht : t ≠ .done) :
    s.next.Ended :=
  (ParseState.tokens_next hs (h.trans_ne ht)).2

theorem length_tokens (s : ParseState) : s.tokens.length = s.later.length + 1 :=
  List.length_map _

theorem run_bind_congr {m m' : Parser α} {r : ParseState} (h : m.run s = m'.run r)
    {g : α → Parser β} : (m >>= g).run s = (m' >>= g).run r := by
  rw [StateT.run_bind, StateT.run_bind, h]

theorem run_left {g : Nat → Parser β} : (left >>= g).run s = (g (s.later.length + 1)).run s := rfl

theorem run_take {g : Located → Parser β} : (take >>= g).run s = (g s.here).run s.next := by
  obtain ⟨here, later, bound⟩ := s
  cases later <;> rfl

theorem run_accept {g : Bool → Parser β} (h : s.here.token = .symbol o) :
    (accept o >>= g).run s = (g true).run s.next := by
  have haccept : (accept o).run s = .ok (true, s.next) := by
    show (if (s.here.token == .symbol o) = true then _ else _ : Parser Bool).run s = _
    rw [h, beq_self_eq_true, if_pos rfl, run_take]
    rfl
  exact run_bind_of_ok haccept

theorem run_accept_other {g : Bool → Parser β} (h : s.here.token ≠ .symbol o) :
    (accept o >>= g).run s = (g false).run s := by
  have haccept : (accept o).run s = .ok (false, s) := by
    show (if (s.here.token == .symbol o) = true then _ else _ : Parser Bool).run s = _
    rw [beq_eq_false_iff_ne.2 h, if_neg Bool.false_ne_true]
    rfl
  exact run_bind_of_ok haccept

theorem run_expect {g : Unit → Parser β} (h : s.here.token = .symbol o) :
    (expect o >>= g).run s = (g ()).run s.next := by
  have hexpect : (expect o).run s = .ok ((), s.next) := by
    show (if (s.here.token == .symbol o) = true then _ else _ : Parser Unit).run s = _
    rw [h, beq_self_eq_true, if_pos rfl, run_take]
    rfl
  exact run_bind_of_ok hexpect

/-- Nothing is taken by operators that bind no tighter. -/
theorem run_operationsFrom_of_le {below : Nat → Nat → Parser Tree} {power : Nat}
    (h : s.here.token.power ≤ power) (steps levels : Nat) (left : Tree) :
    (operationsFrom below power steps levels left).run s = .ok (left, s) := by
  cases steps with
  | zero => rfl
  | succ steps =>
    show (if power < s.here.token.power then _ else pure left : Parser Tree).run s = _
    rw [if_neg (Nat.not_lt.2 h)]
    rfl

theorem run_operators_of_le {below : Nat → Nat → Parser Tree} {power : Nat}
    (h : s.here.token.power ≤ power) (levels : Nat) (x : Tree) :
    (left >>= fun k => operationsFrom below power k levels x).run s = .ok (x, s) :=
  run_operationsFrom_of_le h _ levels x

/-- The items of a row up to its end, if there are any. -/
theorem run_items {item : Parser α} (h : s.here.token ≠ .symbol o) :
    (items item o).run s = (itemsFrom item o (s.later.length + 1) []).run s := by
  rw [items, run_accept_other h]
  rfl

theorem run_items_nil {item : Parser α} (h : s.here.token = .symbol o) :
    (items item o).run s = .ok ([], s.next) := by
  rw [items, run_accept h]
  rfl

/-- An item is read, and then the rest of its row. -/
theorem run_itemsFrom {item m : Parser α} {r : ParseState} (h : item.run s = m.run r)
    (steps : Nat) (acc : List α) :
    (itemsFrom item o (steps + 1) acc).run s = (m >>= fun v => accept .comma >>= fun more =>
      if more = true then itemsFrom item o steps (v :: acc)
      else expect o >>= fun _ => pure (v :: acc).reverse).run r :=
  run_bind_congr h

/-- An expression is an operand and the operators behind it. -/
theorem run_below {n power : Nat} {m : Parser Tree} {r : ParseState}
    (h : (operand (below n n)).run s = m.run r) :
    (below (n + 1) (n + 1) power).run s =
      (m >>= fun first => left >>= fun k => operationsFrom (below n) power k n first).run r := by
  rw [below, if_neg (Nat.not_succ_le_self n)]
  exact run_bind_congr h

/-- A group, and the operators behind it. -/
theorem run_below_group {power n : Nat} (h : s.here.token = .symbol .openParen) :
    (below (n + 1) (n + 1) power).run s = (block (below n n) >>= fun first =>
      left >>= fun k => operationsFrom (below n) power k n first).run s.next := by
  refine run_below ?_
  rw [operand, run_take]
  simp only [h]

/-! ## Names -/

section Names

variable {f : String} {callee : Tree} {n p : Nat}
variable (hempty : f ≠ "") (hroot : f ≠ "$") (hvar : s.here.token = .var f)
  (hmeaning : meaning? s.bound f = some callee)

include hempty hroot hvar hmeaning

/-- An operand that is a name, which is not bound here. -/
theorem run_operand_var {expr : Nat → Parser Tree} (hbind : s.next.here.token ≠ .symbol .bind) :
    (operand expr).run s = (accept .openParen >>= fun called =>
      if called = true then items (expr 0) .closeParen >>= fun args =>
        pure (.call callee args s.here.position) else pure callee : Parser Tree).run s.next := by
  rw [← s.next_bound] at hmeaning
  have huse : (operand expr).run s = (variableUse expr f s.here.position).run s.next := by
    rw [operand, run_take]
    simp only [hvar, beq_eq_false_iff_ne.2 hempty, beq_eq_false_iff_ne.2 hroot]
    rfl
  rw [huse]
  show (if (s.next.here.token == .symbol .bind) = true then _ else _ : Parser Tree).run s.next = _
  rw [beq_eq_false_iff_ne.2 hbind, if_neg Bool.false_ne_true]
  exact run_bind_of_ok (run_named hmeaning _)

/-- A name alone. -/
theorem run_below_name (hbind : s.next.here.token ≠ .symbol .bind)
    (hcall : s.next.here.token ≠ .symbol .openParen) :
    (below (n + 1) (n + 1) p).run s =
      (left >>= fun k => operationsFrom (below n) p k n callee).run s.next := by
  refine (run_below (m := pure callee) ?_).trans rfl
  rw [run_operand_var hempty hroot hvar hmeaning hbind, run_accept_other hcall]
  rfl

/-- A name that is called on nothing. -/
theorem run_below_call_nil (hcall : s.next.here.token = .symbol .openParen)
    (hclose : s.next.next.here.token = .symbol .closeParen) :
    (below (n + 1) (n + 1) p).run s =
      (left >>= fun k => operationsFrom (below n) p k n
        (.call callee [] s.here.position)).run s.next.next.next := by
  have hbind : s.next.here.token ≠ .symbol .bind := by rw [hcall]; decide
  refine (run_below (m := pure (.call callee [] s.here.position)) ?_).trans rfl
  rw [run_operand_var hempty hroot hvar hmeaning hbind, run_accept hcall]
  exact run_bind_of_ok (run_items_nil hclose)

/-- A name that is called on some arguments. -/
theorem run_below_call (hcall : s.next.here.token = .symbol .openParen)
    (hclose : s.next.next.here.token ≠ .symbol .closeParen) :
    (below (n + 1) (n + 1) p).run s =
      (itemsFrom (below n n 0) .closeParen (s.next.next.later.length + 1) [] >>= fun args =>
        left >>= fun k => operationsFrom (below n) p k n
          (.call callee args s.here.position)).run s.next.next := by
  have hbind : s.next.here.token ≠ .symbol .bind := by rw [hcall]; decide
  have hoperand : (operand (below n n)).run s =
      (itemsFrom (below n n 0) .closeParen (s.next.next.later.length + 1) [] >>= fun args =>
        pure (.call callee args s.here.position)).run s.next.next := by
    rw [run_operand_var hempty hroot hvar hmeaning hbind, run_accept hcall]
    exact run_bind_congr (run_items hclose)
  rw [run_below hoperand, bind_assoc]
  rfl

end Names

/-! ## A chain -/

/-- The operator of a chain takes a level, and the function behind it is read. -/
theorem run_chain {power : Nat} (hpower : power < chainPower)
    (hchain : s.here.token = .symbol .chain) (levels steps : Nat) (x : Tree) :
    (operationsFrom (below (levels + 1)) power (steps + 1) (levels + 1) x).run s =
      (below levels levels chainPower >>= fun v => liftM (chained x v s.here.position) >>= fun y =>
        operationsFrom (below (levels + 1)) power steps levels y).run s.next := by
  have hbelow : below (levels + 1) levels = below levels levels :=
    funext fun power => if_pos (Nat.le_refl levels)
  show (if power < s.here.token.power then _ else _ : Parser Tree).run s = _
  rw [hchain, if_pos (show power < Token.power (.symbol .chain) from hpower)]
  show (if (s.here.token == .symbol .dot) = true then _ else _ : Parser Tree).run s = _
  rw [hchain, if_neg (by decide)]
  show (operation (below (levels + 1) levels) x >>= _).run s = _
  rw [hbelow, operation, bind_assoc, run_take]
  simp only [hchain, bind_assoc]

theorem run_chain_zero {below : Nat → Nat → Parser Tree} {power : Nat} (hpower : power < chainPower)
    (hchain : s.here.token = .symbol .chain) (steps : Nat) (x : Tree) :
    (operationsFrom below power (steps + 1) 0 x).run s =
      .error ⟨.nestedTooDeep, s.here.position⟩ := by
  show (if power < s.here.token.power then _ else _ : Parser Tree).run s = _
  rw [hchain, if_pos (show power < Token.power (.symbol .chain) from hpower)]
  show (if (s.here.token == .symbol .dot) = true then _ else _ : Parser Tree).run s = _
  rw [hchain, if_neg (by decide)]
  rfl

/-- What a chain makes of its operand and the function behind it, which no operator follows. -/
theorem run_chain_end {below below' : Nat → Nat → Parser Tree} {power : Nat}
    (hpower : power < chainPower) (ht : s.here.token.power ≤ power) {x v y : Tree} {p : Nat}
    (hcall : chained x v p = .ok y) (levels levels' steps' : Nat) :
    (left >>= fun steps => operationsFrom below chainPower steps levels v >>= fun v =>
      liftM (chained x v p) >>= fun y => operationsFrom below' power steps' levels' y).run s =
        .ok (y, s) := by
  have hlift : (liftM (chained x v p) : Parser Tree).run s = .ok (y, s) := by
    rw [hcall]
    rfl
  rw [run_left, run_bind_of_ok (run_operationsFrom_of_le (ht.trans hpower.le) _ levels v),
    run_bind_of_ok hlift]
  exact run_operationsFrom_of_le ht steps' levels' y

/-- A name that is meant is called on the operand. -/
theorem chained_meaning {bound : List String} {f : String} {callee : Tree}
    (h : meaning? bound f = some callee) (x : Tree) (p : Nat) :
    chained x callee p = .ok (.call callee [x] p) := by
  unfold meaning? at h
  split at h
  · rw [← Option.some.inj h]
    rfl
  · obtain ⟨b, -, rfl⟩ := Option.map_eq_some_iff.1 h
    rfl

/-! ## The two rows -/

/-- What is behind the function of a chain, and what is behind the operand in the call: nothing,
no arguments, or some. -/
inductive Arguments : List Token → List Token → Prop
  | none : Arguments [] [.symbol .closeParen]
  | empty : Arguments [.symbol .openParen, .symbol .closeParen] [.symbol .closeParen]
  | some {a : List Token} (ha : Balanced a) (hne : a ≠ []) :
    Arguments (.symbol .openParen :: (a ++ [.symbol .closeParen]))
      (.symbol .comma :: (a ++ [.symbol .closeParen]))

/-- What is behind the operand starts with no operator. -/
theorem Arguments.exists_cons {behind behind' : List Token} (h : Arguments behind behind') :
    ∃ t ts, behind' = t :: ts ∧ t.power = 0 := by
  cases h with
  | none => exact ⟨_, _, rfl, rfl⟩
  | empty => exact ⟨_, _, rfl, rfl⟩
  | some => exact ⟨_, _, rfl, rfl⟩

/-- The row `( l ) ~> $f` and what is behind it. -/
def chainRow (f : String) (l behind : List Token) : List Token :=
  .symbol .openParen :: (l ++ .symbol .closeParen :: .symbol .chain :: .var f :: behind)

/-- The row `$f ( ( l )` and what is behind it. -/
def callRow (f : String) (l behind : List Token) : List Token :=
  .var f :: .symbol .openParen :: .symbol .openParen :: (l ++ .symbol .closeParen :: behind)

/-- Behind a group, the names that it does not bind are bound as they were before. -/
theorem Noted.mem_bound_iff {l rest : List Token} {B : List String} {f : String}
    (h : Noted (l ++ .symbol .closeParen :: rest) B s) (hs : s.tokens = rest)
    (hf : f ∉ boundIn l) : f ∈ s.bound ↔ f ∈ B := by
  refine ⟨fun hbound => ?_, h.kept f⟩
  rcases h.bound f hbound with hB | ⟨u, ⟨v, hv⟩, hlen, hu⟩
  · exact hB
  rw [hs] at hlen
  -- the place where it is bound is in front of the parenthesis
  rcases List.append_eq_append_iff.1 hv with ⟨w, rfl, rfl⟩ | ⟨w, rfl, hw⟩
  · have hin := boundHere_of_append_close hu
    exact absurd (List.mem_flatMap.2 ⟨w, (List.mem_tails _ _).2 (List.suffix_append _ _), hin⟩) hf
  · cases w with
    | nil =>
      rw [List.nil_append] at hw
      rw [← hw] at hu
      cases hu
    | cons x w =>
      have hrest : rest.length = (w ++ u).length := congrArg List.length (List.cons.inj hw).2
      rw [List.length_append] at hrest
      omega

/-- One tree but for places, a call of `callee` on an operand and other arguments. -/
def OneCall (callee t u : Tree) : Prop :=
  Moved t u ∧ ∃ operand args p, t = .call callee (operand :: args) p

section Application

variable {power : Nat} {f : String} {callee x y : Tree} {us us' behind behind' : List Token}
  {t t' : Token} {r r' : ParseState} (hpower : power < chainPower) (ht : t.power ≤ power)
  (ht' : t'.power ≤ power)

/-- A call on the operand alone, once the operand was read. -/
theorem run_call_one (ht' : t'.power ≤ power) (hr' : r'.tokens = .symbol .closeParen :: t' :: us')
    {item : Parser Tree} {below : Nat → Nat → Parser Tree} (steps levels p : Nat) :
    ((accept .comma >>= fun more => if more = true then
        itemsFrom item .closeParen steps [y]
      else expect .closeParen >>= fun _ => pure [y]) >>= fun args =>
        left >>= fun k => operationsFrom below power k levels (.call callee args p)).run r' =
      .ok (.call callee [y] p, r'.next) ∧ r'.next.tokens = t' :: us' := by
  obtain ⟨hclose, hr'⟩ := next_of_tokens (List.cons_ne_nil _ _) hr'
  have hother : r'.here.token ≠ .symbol .comma := by rw [hclose]; decide
  refine ⟨?_, hr'⟩
  rw [run_bind_congr (run_accept_other hother), if_neg Bool.false_ne_true, bind_assoc,
    run_expect hclose]
  exact run_operators_of_le ((List.cons.inj hr').1 ▸ ht') _ _

include hpower ht ht'

/-- The arguments are read with the same names bound, and the operand is put before them. -/
theorem abreast_arguments (hxy : Moved x y) {a : List Token} (ha : Balanced a) (hended : r.Ended)
    (hbound : r.bound = r'.bound) (hr : r.tokens = a ++ .symbol .closeParen :: t :: us)
    (hr' : r'.tokens = a ++ .symbol .closeParen :: t' :: us') {steps steps' : Nat}
    (hsteps : a.length + 1 < steps) (hsteps' : a.length + 1 < steps') (n n' m p p' p'' k : Nat)
    {below' : Nat → Nat → Parser Tree} :
    Abreast ((itemsFrom (below n n 0) .closeParen steps [] >>= fun args =>
        left >>= fun k => operationsFrom (below n) chainPower k n (.call callee args p)) >>=
          fun v => liftM (chained x v p') >>= fun z => operationsFrom below' power k m z)
      (itemsFrom (below n' n' 0) .closeParen steps' [y] >>= fun args =>
        left >>= fun k => operationsFrom (below n') power k n' (.call callee args p'')) r r'
      fun x y r r' => OneCall callee x y ∧ r.tokens = t :: us ∧ r'.tokens = t' :: us' := by
  have hshares : Shares (Noted r.tokens r.bound) (a ++ [.symbol .closeParen]) (t :: us)
      (t' :: us') r r' := by
    refine ⟨?_, ?_, List.cons_ne_nil _ _, List.cons_ne_nil _ _, hbound, .init hended⟩
    · rwa [List.append_assoc]
    · rwa [List.append_assoc]
  have hlen : (a ++ [Token.symbol .closeParen]).length = a.length + 1 := List.length_append
  rw [bind_assoc]
  refine Abreast.bind (abreast_itemsFrom Noted.next (goes_below n n' n n' 0) (Or.inl rfl)
    (K := (· = [])) Upto.eq_nil ⟨a, ha, rfl⟩ hshares (hlen ▸ hsteps) (hlen ▸ hsteps')) ?_
  rintro xs ys q q' ⟨⟨vs, ws, hxs, rfl, hvs⟩, c, rfl, -, h⟩
  obtain rfl : xs = vs := hxs
  have hcall : Moved (.call callee (x :: xs) p) (.call callee (y :: ws) p'') :=
    congrArg (Tree.call callee.unplaced · 0) (Tree.unplacedList_eq_iff.2 (.cons hxy hvs))
  rw [bind_assoc]
  refine Abreast.of_ok (run_chain_end hpower ?_ rfl _ _ _) (run_operators_of_le ?_ _ _)
    ⟨⟨hcall, _, _, _, rfl⟩, h.left, h.right⟩
  · rw [(List.cons.inj h.left).1]
    exact ht
  · rw [(List.cons.inj h.right).1]
    exact ht'

/-- Behind the operand, which is `x` in the one and `y` in the other. -/
theorem abreast_behind_operand (hempty : f ≠ "") (hroot : f ≠ "$") (hbind : t ≠ .symbol .bind)
    (hxy : Moved x y) (hargs : Arguments behind behind') (hended : r.Ended)
    (hbound : r.bound = r'.bound) (hmeaning : meaning? r.bound f = some callee)
    (hr : r.tokens = .symbol .chain :: .var f :: (behind ++ t :: us))
    (hr' : r'.tokens = behind' ++ t' :: us') (n n' p : Nat) {steps : Nat}
    (hsteps : behind'.length < steps) :
    Abreast (left >>= fun k => operationsFrom (below n) power k n x)
      ((accept .comma >>= fun more => if more = true then
          itemsFrom (below n' n' 0) .closeParen steps [y]
        else expect .closeParen >>= fun _ => pure [y]) >>= fun args =>
          left >>= fun k => operationsFrom (below n') power k n' (.call callee args p)) r r'
      fun x y r r' => OneCall callee x y ∧ r.tokens = t :: us ∧ r'.tokens = t' :: us' := by
  obtain ⟨hchain, hr⟩ := next_of_tokens (List.cons_ne_nil _ _) hr
  match n with
  | 0 => exact .of_deep (run_chain_zero hpower hchain _ x) rfl
  | 1 => exact .of_run (run_chain hpower hchain _ _ x) rfl (.left rfl)
  | n + 2 =>
    refine Abreast.of_run (run_chain hpower hchain _ _ x) rfl ?_
    rw [← r.next_bound] at hmeaning
    have hended := ended_next hended hchain Token.noConfusion
    have hone : ∀ q, OneCall callee (.call callee [x] q) (.call callee [y] p) := fun _ =>
      ⟨congrArg (Tree.call callee.unplaced [·] 0) hxy, _, _, _, rfl⟩
    obtain ⟨hvar, hr⟩ := next_of_tokens (by simp) hr
    cases hargs with
    | none =>
      obtain ⟨hright, hend'⟩ := run_call_one ht' hr' steps n' p
      have hhere : r.next.next.here.token = t := (List.cons.inj hr).1
      have hcall : t ≠ .symbol .openParen := by
        rintro rfl
        exact absurd (ht.trans_lt hpower) (by decide)
      have hname := run_below_name hempty hroot hvar hmeaning (hhere ▸ hbind) (hhere ▸ hcall)
        (n := n) (p := chainPower)
      refine Abreast.of_ok ((run_bind_congr hname).trans ?_) hright
        ⟨hone r.here.position, hr, hend'⟩
      rw [bind_assoc]
      exact run_chain_end hpower (hhere ▸ ht) (chained_meaning hmeaning x _) _ _ _
    | empty =>
      obtain ⟨hright, hend'⟩ := run_call_one ht' hr' steps n' p
      obtain ⟨hcall, hr⟩ := next_of_tokens (by simp) hr
      obtain ⟨hclose, hr⟩ := next_of_tokens (by simp) hr
      have hname := run_below_call_nil hempty hroot hvar hmeaning hcall hclose (n := n)
        (p := chainPower)
      refine Abreast.of_ok ((run_bind_congr hname).trans ?_) hright
        ⟨hone r.next.here.position, hr, hend'⟩
      rw [bind_assoc]
      exact run_chain_end hpower ((List.cons.inj hr).1 ▸ ht) rfl _ _ _
    | @some a ha hne =>
      rw [List.cons_append, List.append_assoc] at hr hr'
      obtain ⟨hcall, hr⟩ := next_of_tokens (by simp) hr
      obtain ⟨hcomma, hr'⟩ := next_of_tokens (by simp) hr'
      have hclose : r.next.next.next.here.token ≠ .symbol .closeParen := by
        obtain ⟨u, a, rfl⟩ := List.exists_cons_of_ne_nil hne
        rw [(List.cons.inj hr).1]
        exact ha.head_ne
      refine Abreast.of_run
        (run_bind_congr (run_below_call hempty hroot hvar hmeaning hcall hclose))
        (run_bind_congr (run_accept hcomma)) ?_
      have hended := ended_next (ended_next hended hvar Token.noConfusion) hcall Token.noConfusion
      rw [if_pos rfl]
      refine abreast_arguments hpower ht ht' hxy ha hended ?_ hr hr' ?_ ?_ n n' _ _ _ _ _
      · simp only [ParseState.next_bound, hbound]
      · rw [← length_tokens, hr, List.length_append, List.length_append, List.length_cons]
        simp
      · simp only [List.length_append, List.length_cons, List.length_nil] at hsteps
        omega

end Application

/-- **A chain is read as a call with one argument more**, wherever the two may stand, if nothing
in the operand binds the name of the function. -/
theorem abreast_application {power : Nat} (hpower : power < chainPower) {f : String}
    (hempty : f ≠ "") (hroot : f ≠ "$") {l behind behind' us us' : List Token} {t t' : Token}
    (hl : Balanced l) (hf : f ∉ boundIn l) (hargs : Arguments behind behind')
    (ht : t.power ≤ power) (hbind : t ≠ .symbol .bind) (ht' : t'.power ≤ power)
    {s s' : ParseState} (hended : s.Ended) (hbound : s.bound = s'.bound) {callee : Tree}
    (hmeaning : meaning? s.bound f = some callee)
    (hs : s.tokens = chainRow f l behind ++ t :: us)
    (hs' : s'.tokens = callRow f l behind' ++ t' :: us') (n n' : Nat) :
    Abreast (below n n power) (below n' n' power) s s' fun x y r r' =>
      OneCall callee x y ∧ r.tokens = t :: us ∧ r'.tokens = t' :: us' := by
  match n, n' with
  | 0, _ => exact .left rfl
  | n + 1, 0 => exact .right rfl
  | n + 1, n' + 1 =>
    -- the chain up to its operand, and the call
    rw [chainRow, List.cons_append, List.append_assoc] at hs
    rw [callRow, List.cons_append, List.cons_append, List.cons_append, List.append_assoc] at hs'
    obtain ⟨hgroup, hs⟩ := next_of_tokens (by simp) hs
    obtain ⟨hvar', hs'⟩ := next_of_tokens (by simp) hs'
    obtain ⟨hcall', hs'⟩ := next_of_tokens (by simp) hs'
    obtain ⟨hgroup', hinner'⟩ := next_of_tokens (by simp) hs'
    have hmeaning' : meaning? s'.bound f = some callee := hbound ▸ hmeaning
    refine Abreast.of_run (run_below_group hgroup)
      (run_below_call hempty hroot hvar' hmeaning' hcall' (by rw [hgroup']; decide)) ?_
    cases n' with
    | zero => exact .right rfl
    | succ n' =>
      refine Abreast.of_run rfl (run_bind_congr (run_itemsFrom (run_below_group hgroup') _ _)) ?_
      rw [bind_assoc, bind_assoc]
      -- the operand is read with the same names bound
      have hended' := ended_next hended hgroup Token.noConfusion
      have hshares : Shares (Noted s.next.tokens s.next.bound) (l ++ [.symbol .closeParen])
          (.symbol .chain :: .var f :: (behind ++ t :: us)) (behind' ++ t' :: us') s.next
          s'.next.next.next := by
        refine ⟨?_, ?_, by simp, by simp, ?_, .init hended'⟩
        · simpa using hs
        · simpa using hinner'
        · simp only [ParseState.next_bound, hbound]
      refine Abreast.bind (exhausts_block (fun power => goes_below n n' n n' power) ⟨l, hl, rfl⟩
        hshares) ?_
      rintro x y r r' ⟨hxy, h⟩
      refine Abreast.of_run rfl (run_bind_of_ok (run_operators_of_le ?_ _ _)) ?_
      · obtain ⟨u, b, rfl, hu⟩ := hargs.exists_cons
        rw [(List.cons.inj h.right).1, hu]
      · have hr : r.tokens = .symbol .chain :: .var f :: (behind ++ t :: us) := h.left
        have hmem : f ∈ r.bound ↔ f ∈ s.next.bound := by
          have hnoted := h.known
          rw [hs] at hnoted
          exact hnoted.mem_bound_iff (by rw [hr]; simp) hf
        rw [s.next_bound] at hmem
        refine abreast_behind_operand hpower ht ht' hempty hroot hbind hxy hargs h.known.ended
          h.bound ((meaning?_congr hmem).trans hmeaning) hr h.right _ _ _ ?_
        have hlen := length_tokens s'.next.next
        rw [hs'] at hlen
        simp only [List.length_append, List.length_cons] at hlen
        omega

end Parser

end Reshape.Expression
