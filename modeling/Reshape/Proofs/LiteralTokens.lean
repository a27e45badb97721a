/-
# The literals of a text

The literals of a tree are those that are written in its text, no matter how the parser puts it
together: none is dropped, none is made up, and none is there twice (`literals_of_compileTree`).

A parser takes literals out of the tokens and puts them into what it yields.  What it was given and
has taken but not yet put anywhere is what it owes, and the account stays balanced at every step
(`Owes`).
-/
import Mathlib.Tactic
import Mathlib.Algebra.BigOperators.Group.Multiset.Basic
import Reshape.Proofs.Names
import Reshape.Proofs.Subtrees

namespace Reshape.Expression

/-- What is in a sum is in one of the summands. -/
theorem mem_sum_map {α : Type} {f : α → Multiset Json} {v : Json} {xs : List α} :
    v ∈ (xs.map f).sum ↔ ∃ x ∈ xs, v ∈ f x := by
  induction xs with
  | nil => simp
  | cons x xs ih => simp [ih]

/-! ## Literals of trees -/

namespace Tree

mutual

/-- The literals inside a tree, each as often as it is there. -/
def literals : Tree → Multiset Json
  | .literal v => {v}
  | .context | .root | .field _ | .var _ | .builtin _ => 0
  | .path steps => literalsList steps
  | .filter base predicate => base.literals + predicate.literals
  | .binary _ l r => l.literals + r.literals
  | .negate v => v.literals
  | .condition test yes no? => test.literals + yes.literals + literalsOption no?
  | .array items => literalsList items
  | .object entries => literalsEntries entries
  | .block items => literalsList items
  | .bind _ v => v.literals
  | .lambda _ body => body.literals
  | .call callee args _ => callee.literals + literalsList args

/-- The literals inside a row of trees. -/
def literalsList : List Tree → Multiset Json
  | [] => 0
  | t :: rest => t.literals + literalsList rest

/-- The literals inside a tree that may be missing. -/
def literalsOption : Option Tree → Multiset Json
  | none => 0
  | some t => t.literals

/-- The literals inside a row of members. -/
def literalsEntries : List (Tree × Tree) → Multiset Json
  | [] => 0
  | (k, v) :: rest => k.literals + v.literals + literalsEntries rest

end

theorem literalsList_eq (ts : List Tree) : literalsList ts = (ts.map literals).sum := by
  induction ts with
  | nil => rfl
  | cons t ts ih => rw [literalsList, ih, List.map_cons, List.sum_cons]

theorem literalsEntries_eq (entries : List (Tree × Tree)) :
    literalsEntries entries = (entries.map fun e => e.1.literals + e.2.literals).sum := by
  induction entries with
  | nil => rfl
  | cons e entries ih => rw [literalsEntries, ih, List.map_cons, List.sum_cons]

/-- The literals of a tree that is none itself are those of its parts. -/
theorem literals_eq_parts {t : Tree} (ht : ∀ v, t ≠ .literal v) :
    t.literals = (t.parts.map literals).sum := by
  cases t with
  | literal v => exact absurd rfl (ht v)
  | context | root | field | var | builtin => rfl
  | path | array | block => exact literalsList_eq _
  | filter | binary | negate | bind | lambda => simp [literals, parts]
  | condition test yes no? => cases no? <;> simp [literals, literalsOption, parts, add_assoc]
  | object entries =>
    rw [literals, literalsEntries_eq, parts]
    induction entries with
    | nil => rfl
    | cons e entries ih => simp [ih, add_assoc]
  | call callee args => simp [literals, literalsList_eq, parts]

/-- The literals of a tree are the literals inside. -/
theorem mem_literals_iff {v : Json} {t : Tree} : v ∈ t.literals ↔ Inside (.literal v) t := by
  induction t using induction_parts with
  | h t ih =>
    by_cases ht : ∃ w, t = .literal w
    · obtain ⟨w, rfl⟩ := ht
      rw [literals, Multiset.mem_singleton]
      constructor
      · rintro rfl
        exact .root
      · intro h
        cases h with
        | root => rfl
        | part hu => cases hu
    · rw [literals_eq_parts fun w hw => ht ⟨w, hw⟩, mem_sum_map]
      constructor
      · rintro ⟨u, hu, hv⟩
        exact .part hu ((ih u hu).1 hv)
      · intro h
        cases h with
        | root => exact absurd ⟨v, rfl⟩ ht
        | part hu h => exact ⟨_, hu, (ih _ hu).2 h⟩

end Tree

/-! ## Literals of tokens -/

namespace Token

/-- The literal that a token is where an operand is expected. -/
def literals : Token → Multiset Json
  | .number x => {Parser.numberLiteral x}
  | .string s => {.string s}
  | .name n => (Parser.nameOperand n).literals
  | .var _ | .symbol _ | .done => 0

/-- A symbol is no literal. -/
theorem literals_symbol (o : Symbol) : (symbol o).literals = 0 := rfl

/-- An operator is no literal. -/
theorem literals_of_operator? {t : Token} {op : Operator} (h : t.operator? = some op) :
    t.literals = 0 := by
  cases t with
  | number | string => cases h
  | var | symbol | done => rfl
  | name name =>
    rw [operator?] at h
    split_ifs at h with hand hor
    · rw [beq_iff_eq.1 hand]
      rfl
    · rw [beq_iff_eq.1 hor]
      rfl

end Token

/-- The literals in a row of tokens. -/
def literalsIn (ts : List Located) : Multiset Json := (ts.map fun t => t.token.literals).sum

theorem literalsIn_cons (t : Located) (ts : List Located) :
    literalsIn (t :: ts) = t.token.literals + literalsIn ts := rfl

namespace Parser

variable {α β : Type} {c : α → Multiset Json} {d : β → Multiset Json} {owed : Multiset Json}

/-! ## Accounts -/

/-- With what it owes and the literals in the tokens that are left, the parser pays for the
literals in what it yields and leaves the others. -/
def Owes (owed : Multiset Json) (c : α → Multiset Json) (m : Parser α) : Prop :=
  ∀ s, Ended (s.here :: s.later) → After m s fun x s' =>
    Ended (s'.here :: s'.later) ∧
      owed + literalsIn (s.here :: s.later) = c x + literalsIn (s'.here :: s'.later)

theorem owes_pure {x : α} (h : owed = c x) : Owes owed c (pure x) :=
  fun _ hs => after_pure ⟨hs, by rw [h]⟩

theorem owes_throw {f : Fault} : Owes owed c (throw f : Parser α) := fun _ _ => after_throw

theorem owes_failHere {cause : Token → Cause} : Owes owed c (failHere cause : Parser α) :=
  fun _ _ => after_failHere

theorem Owes.bind {m : Parser α} {f : α → Parser β} (h : Owes owed c m)
    (hf : ∀ x, Owes (c x) d (f x)) : Owes owed d (m >>= f) := by
  intro s hs
  refine after_bind ((h s hs).imp ?_)
  rintro x s' ⟨hs', hleft⟩
  rw [hleft]
  exact hf x s' hs'

/-- A parser that begins by looking at its state. -/
theorem owes_get {f : ParseState → Parser β} (hf : ∀ s, Owes owed d (f s)) :
    Owes owed d (do f (← get)) :=
  fun s hs => hf s s hs

theorem owes_lift {x : Except Fault α} (h : ∀ v, x = .ok v → owed = c v) :
    Owes owed c (liftM x : Parser α) :=
  fun _ hs => after_lift fun v hv => ⟨hs, by rw [h v hv]⟩

/-- Behind the token at hand its literals are missing. -/
theorem literalsIn_next {s : ParseState} (hs : Ended (s.here :: s.later)) :
    Ended (s.next.here :: s.next.later) ∧
      literalsIn (s.here :: s.later) =
        s.here.token.literals + literalsIn (s.next.here :: s.next.later) := by
  obtain ⟨here, later, bound⟩ := s
  cases later with
  | nil =>
    -- the end mark stays, and is no literal
    refine ⟨hs, (zero_add _).symm.trans ?_⟩
    rw [hs.token_of_singleton]
    rfl
  | cons t later => exact ⟨hs.tail, literalsIn_cons here _⟩

theorem literalsIn_next_symbol {s : ParseState} {o : Symbol} (hs : Ended (s.here :: s.later))
    (ho : (s.here.token == .symbol o) = true) :
    Ended (s.next.here :: s.next.later) ∧
      literalsIn (s.here :: s.later) = literalsIn (s.next.here :: s.next.later) := by
  obtain ⟨hnext, hleft⟩ := literalsIn_next hs
  rw [beq_iff_eq.1 ho, Token.literals_symbol, zero_add] at hleft
  exact ⟨hnext, hleft⟩

/-- What is taken is owed. -/
theorem owes_take {f : Located → Parser β} (hf : ∀ t, Owes (owed + t.token.literals) d (f t)) :
    Owes owed d (take >>= f) := by
  intro s hs
  obtain ⟨hnext, hleft⟩ := literalsIn_next hs
  rw [hleft, ← add_assoc]
  exact after_take_next (hf s.here s.next hnext)

theorem owes_at? {f : Bool → Parser β} {o : Symbol} (hf : ∀ here, Owes owed d (f here)) :
    Owes owed d (at? o >>= f) :=
  fun s hs => after_at? (hf _ s hs)

theorem owes_left {f : Nat → Parser β} (hf : ∀ n, Owes owed d (f n)) :
    Owes owed d (left >>= f) :=
  fun s hs => after_left (hf _ s hs)

theorem owes_noteBound {f : Unit → Parser β} {name : String} (hf : Owes owed d (f ())) :
    Owes owed d (noteBound name >>= f) :=
  fun s hs => hf { s with bound := name :: s.bound } hs

theorem owes_accept {f : Bool → Parser β} {o : Symbol} (hf : ∀ taken, Owes owed d (f taken)) :
    Owes owed d (accept o >>= f) := by
  intro s hs
  refine after_bind (after_at? ?_)
  split
  · rename_i ho
    obtain ⟨hnext, hleft⟩ := literalsIn_next_symbol hs ho
    rw [hleft]
    exact after_take_next (after_pure (hf true s.next hnext))
  · exact after_pure (hf false s hs)

theorem owes_expect {f : Unit → Parser β} {o : Symbol} (hf : Owes owed d (f ())) :
    Owes owed d (expect o >>= f) := by
  intro s hs
  refine after_bind (after_at? ?_)
  split
  · rename_i ho
    obtain ⟨hnext, hleft⟩ := literalsIn_next_symbol hs ho
    rw [hleft]
    exact after_take_next (after_pure (hf s.next hnext))
  · exact after_failHere

/-! ## Rows -/

/-- One more item in front of those that are paid for. -/
theorem add_sum_cons (owed : Multiset Json) (c : α → Multiset Json) (v : α) (acc : List α) :
    owed + (acc.map c).sum + c v = owed + ((v :: acc).map c).sum := by
  rw [List.map_cons, List.sum_cons, add_assoc, add_comm (c v)]

theorem owes_itemsFrom {item : Parser α} (hitem : ∀ owed, Owes owed (fun x => owed + c x) item)
    (close : Symbol) (steps : ℕ) (acc : List α) (owed : Multiset Json) :
    Owes (owed + (acc.map c).sum) (fun xs => owed + (xs.map c).sum)
      (itemsFrom item close steps acc) := by
  induction steps generalizing acc with
  | zero => exact owes_failHere
  | succ steps ih =>
    refine (hitem _).bind fun v => owes_accept fun more => ?_
    rw [add_sum_cons]
    cases more with
    | true => exact ih (v :: acc)
    | false => exact owes_expect (owes_pure (by rw [List.map_reverse, List.sum_reverse]))

theorem owes_items {item : Parser α} (hitem : ∀ owed, Owes owed (fun x => owed + c x) item)
    (close : Symbol) (owed : Multiset Json) :
    Owes owed (fun xs => owed + (xs.map c).sum) (items item close) := by
  refine owes_accept fun none => ?_
  cases none with
  | true => exact owes_pure (add_zero owed).symm
  | false =>
    refine owes_left fun n => ?_
    have hrow := owes_itemsFrom hitem close n [] owed
    rwa [List.map_nil, List.sum_nil, add_zero] at hrow

theorem owes_parameter (owed : Multiset Json) : Owes owed (fun _ => owed + 0) parameter := by
  refine owes_take fun t => ?_
  split
  · rename_i name ht
    rw [ht]
    split_ifs
    · exact owes_throw
    · exact owes_noteBound (owes_pure rfl)
  · exact owes_throw

/-! ## Trees that are put together -/

theorem literals_addStep (left step : Tree) :
    (addStep left step).literals = left.literals + step.literals := by
  unfold addStep
  split
  · simp [Tree.literals, Tree.literalsList_eq]
  · simp [Tree.literals, Tree.literalsList]

theorem literals_chained {left right t : Tree} {position : ℕ}
    (h : chained left right position = .ok t) : t.literals = left.literals + right.literals := by
  unfold chained at h
  split at h
  · cases h
    rw [Tree.literals, Tree.literals, Tree.literalsList, add_left_comm]
  all_goals
    cases h
    try simp [Tree.literals, Tree.literalsList, add_comm]

/-! ## Expressions -/

section Expressions

variable {expr : Nat → Parser Tree}
  (hexpr : ∀ power owed, Owes owed (fun t => owed + t.literals) (expr power))

include hexpr

theorem owes_entry (owed : Multiset Json) :
    Owes owed (fun e => owed + (e.1.literals + e.2.literals)) (entry expr) := by
  refine (hexpr 0 owed).bind fun key => owes_expect ((hexpr 0 _).bind fun value => owes_pure ?_)
  exact add_assoc _ _ _

theorem owes_blockFrom (steps : ℕ) (acc : List Tree) (owed : Multiset Json) :
    Owes (owed + (acc.map Tree.literals).sum) (fun ts => owed + (ts.map Tree.literals).sum)
      (blockFrom expr steps acc) := by
  induction steps generalizing acc with
  | zero => exact owes_failHere
  | succ steps ih =>
    refine owes_at? fun closed => ?_
    split
    · exact owes_pure (by rw [List.map_reverse, List.sum_reverse])
    · refine (hexpr 0 _).bind fun v => owes_accept fun more => ?_
      rw [add_sum_cons]
      cases more with
      | true => exact ih (v :: acc)
      | false => exact owes_pure (by rw [List.map_reverse, List.sum_reverse])

theorem owes_block (owed : Multiset Json) :
    Owes owed (fun t => owed + t.literals) (block expr) := by
  refine owes_left fun n => ?_
  have hrow := owes_blockFrom hexpr (n + 1) [] owed
  rw [List.map_nil, List.sum_nil, add_zero] at hrow
  refine hrow.bind fun items => owes_expect ?_
  split
  · split
    · exact owes_pure (by rw [Tree.literals, Tree.literalsList_eq])
    · exact owes_pure (by simp)
  · exact owes_pure (by rw [Tree.literals, Tree.literalsList_eq])

theorem owes_lambda (owed : Multiset Json) :
    Owes owed (fun t => owed + t.literals) (lambda expr) := by
  refine owes_expect ((owes_items owes_parameter .closeParen owed).bind fun params => ?_)
  have hnone : owed + (params.map fun _ => (0 : Multiset Json)).sum = owed := by simp
  rw [hnone]
  exact owes_expect ((hexpr 0 owed).bind fun body => owes_expect (owes_pure rfl))

omit hexpr in
theorem owes_named (name : String) (position : ℕ) (owed : Multiset Json) :
    Owes owed (fun t => owed + t.literals) (named name position) := by
  refine owes_get fun s => ?_
  split
  · exact owes_pure (add_zero owed).symm
  split
  · exact owes_pure (add_zero owed).symm
  refine owes_at? fun called => ?_
  split
  · exact owes_throw
  · exact owes_throw

theorem owes_variableUse (name : String) (position : ℕ) (owed : Multiset Json) :
    Owes owed (fun t => owed + t.literals) (variableUse expr name position) := by
  refine owes_at? fun target => ?_
  split
  · exact owes_noteBound (owes_pure (add_zero owed).symm)
  refine (owes_named name position owed).bind fun callee => owes_accept fun called => ?_
  cases called with
  | true =>
    refine (owes_items (hexpr 0) .closeParen _).bind fun args => owes_pure ?_
    rw [Tree.literals, Tree.literalsList_eq, add_assoc]
  | false => exact owes_pure rfl

theorem owes_operand (owed : Multiset Json) :
    Owes owed (fun t => owed + t.literals) (operand expr) := by
  refine owes_take fun t => ?_
  split
  · rename_i x hx
    rw [hx]
    exact owes_pure rfl
  · rename_i s hs
    rw [hs]
    exact owes_pure rfl
  · rename_i name hname
    have hliteral : Owes (owed + t.token.literals) (fun t => owed + t.literals)
        (pure (nameOperand name)) := by
      rw [hname]
      exact owes_pure rfl
    split_ifs with hfunction
    · refine owes_at? fun called => ?_
      split
      · rw [hname, beq_iff_eq.1 hfunction]
        have hnone : (Token.name "function").literals = 0 := rfl
        rw [hnone, add_zero]
        exact owes_lambda hexpr owed
      · exact hliteral
    · exact hliteral
  · rename_i name hname
    rw [hname, Token.literals, add_zero]
    split_ifs
    · exact owes_pure (add_zero owed).symm
    · exact owes_pure (add_zero owed).symm
    · exact owes_variableUse hexpr name t.position owed
  · rename_i ho
    rw [ho, Token.literals_symbol, add_zero]
    exact (hexpr negationPower owed).bind fun v => owes_pure rfl
  · rename_i ho
    rw [ho, Token.literals_symbol, add_zero]
    exact owes_block hexpr owed
  · rename_i ho
    rw [ho, Token.literals_symbol, add_zero]
    refine (owes_items (hexpr 0) .closeBracket owed).bind fun items => owes_pure ?_
    rw [Tree.literals, Tree.literalsList_eq]
  · rename_i ho
    rw [ho, Token.literals_symbol, add_zero]
    refine (owes_items (owes_entry hexpr) .closeBrace owed).bind fun entries => owes_pure ?_
    rw [Tree.literals, Tree.literalsEntries_eq]
  · exact owes_throw

theorem owes_operation (left : Tree) (owed : Multiset Json) :
    Owes (owed + left.literals) (fun t => owed + t.literals) (operation expr left) := by
  refine owes_take fun t => ?_
  split
  · rename_i ho
    rw [ho, Token.literals_symbol, add_zero]
    refine (hexpr stepPower _).bind fun step => owes_pure ?_
    rw [literals_addStep, add_assoc]
  · rename_i ho
    rw [ho, Token.literals_symbol, add_zero]
    refine owes_at? fun closed => ?_
    split
    · exact fun _ _ => after_bind after_failHere
    · refine (hexpr 0 _).bind fun v => owes_expect (owes_pure ?_)
      rw [Tree.literals, add_assoc]
  · rename_i ho
    rw [ho, Token.literals_symbol, add_zero]
    refine (hexpr 0 _).bind fun yes => owes_accept fun more => ?_
    cases more with
    | true =>
      refine (hexpr 0 _).bind fun no => owes_pure ?_
      simp only [Tree.literals, Tree.literalsOption, add_assoc]
    | false =>
      refine owes_pure ?_
      simp only [Tree.literals, Tree.literalsOption, add_assoc, add_zero]
  · rename_i ho
    rw [ho, Token.literals_symbol, add_zero]
    split
    · exact (hexpr bindPower _).bind fun v => owes_pure (by simp [Tree.literals])
    · exact owes_throw
  · rename_i ho
    rw [ho, Token.literals_symbol, add_zero]
    refine (hexpr chainPower _).bind fun right => owes_lift fun u hu => ?_
    rw [literals_chained hu, add_assoc]
  · exact owes_throw
  · split
    · rename_i op hop
      rw [Token.literals_of_operator? hop, add_zero]
      refine (hexpr _ _).bind fun v => owes_pure ?_
      rw [Tree.literals, add_assoc]
    · exact owes_throw

end Expressions

theorem owes_operationsFrom {below : Nat → Nat → Parser Tree}
    (hbelow : ∀ levels power owed, Owes owed (fun t => owed + t.literals) (below levels power))
    (power steps levels : ℕ) (left : Tree) (owed : Multiset Json) :
    Owes (owed + left.literals) (fun t => owed + t.literals)
      (operationsFrom below power steps levels left) := by
  induction steps generalizing levels left with
  | zero => exact owes_pure rfl
  | succ steps ih =>
    have hstep : ∀ levels, Owes (owed + left.literals) (fun t => owed + t.literals)
        (operation (below levels) left >>= operationsFrom below power steps levels) :=
      fun levels => (owes_operation (hbelow levels) left owed).bind fun t => ih levels t
    refine owes_get fun s => ?_
    split
    · refine owes_at? fun dotted => ?_
      split
      · exact hstep levels
      · cases levels with
        | zero => exact owes_failHere
        | succ levels => exact hstep levels
    · exact owes_pure rfl

theorem owes_below (n levels power : ℕ) (owed : Multiset Json) :
    Owes owed (fun t => owed + t.literals) (below n levels power) := by
  induction n generalizing levels power owed with
  | zero => exact owes_failHere
  | succ n ih =>
    rw [below]
    split
    · exact ih levels power owed
    · refine (owes_operand (ih n) owed).bind fun first => owes_left fun left => ?_
      exact owes_operationsFrom ih power left n first owed

/-- The literals of a row of tokens up to the end mark are those of its tree. -/
theorem after_whole_literals {s : ParseState} (hs : Ended (s.here :: s.later)) :
    After whole s fun t _ => literalsIn (s.here :: s.later) = t.literals := by
  refine after_bind ((owes_below maxNesting maxNesting 0 0 s hs).imp ?_)
  rintro t s' ⟨hs', hleft⟩
  refine after_get ?_
  split
  · exact after_bind after_failHere
  · rename_i hdone
    have hdone : s'.here.token = .done := by simpa using hdone
    have hnone : literalsIn (s'.here :: s'.later) = 0 := by
      rw [hs'.tail_eq_nil hdone, literalsIn_cons, hdone]
      rfl
    rw [hnone, zero_add] at hleft
    exact after_pure (hleft.trans ((add_zero _).trans (zero_add _)))

end Parser

/-- **The literals of a text that compiles are those of its tree**, each as often as it is
written. -/
theorem literals_of_compileTree {source : String} {t : Tree} {ts : List Located}
    (h : compileTree source = .ok t) (hts : tokens source = .ok ts) :
    literalsIn ts = t.literals := by
  obtain ⟨here, later, s, htokens, hrun⟩ := Parser.exists_whole_of_compileTree h
  cases hts.symm.trans htokens
  have hended : Ended (here :: later) := Lexer.ended_tokensFrom htokens
  have hleft := Parser.after_whole_literals (s := ⟨here, later, []⟩) hended
  exact hleft t s hrun

end Reshape.Expression
