/-
# Operator precedence

Operands with operators between them (`Row`) can be grouped in many ways (`Grouping`).  One of
them respects the levels of the operators: an operator at the root of a right operand binds
tighter than the one it is an operand of, and one at the root of a left operand at least as
tightly, so that operators of one level are grouped from the left.  There is only one, since
its root is the last of the operators that bind least (`Grouping.eq_of_row_eq`).

The parser finds it.  It reads an operand and then applies the operators behind it one after
the other; what it has grouped so far respects the levels, and its root binds at least as
tightly as the operator at hand (`groups_operationsFrom`).  Groups in parentheses are operands,
and so are operands with minus signs before them, which bind tighter than every operator.
-/
import Mathlib.Tactic
import Reshape.Proofs.Balance

namespace Reshape.Expression

/-! ## Levels -/

namespace Operator

/-- How tightly an operator binds. -/
def level : Operator → Nat
  | .multiply | .divide | .remainder => 5
  | .add | .subtract | .concat => 4
  | .equal | .notEqual | .less | .lessEqual | .greater | .greaterEqual => 3
  | .and => 2
  | .or => 1

/-- The token that an operator is written with. -/
def token : Operator → Token
  | .add => .symbol .plus
  | .subtract => .symbol .minus
  | .multiply => .symbol .star
  | .divide => .symbol .slash
  | .remainder => .symbol .percent
  | .concat => .symbol .ampersand
  | .equal => .symbol .equal
  | .notEqual => .symbol .notEqual
  | .less => .symbol .less
  | .lessEqual => .symbol .lessEqual
  | .greater => .symbol .greater
  | .greaterEqual => .symbol .greaterEqual
  | .and => .name "and"
  | .or => .name "or"

variable {op op' : Operator}

theorem power_cases (op : Operator) :
    op.level = 5 ∧ op.token.power = 60 ∨ op.level = 4 ∧ op.token.power = 50
      ∨ op.level = 3 ∧ op.token.power = 40 ∨ op.level = 2 ∧ op.token.power = 30
      ∨ op.level = 1 ∧ op.token.power = 25 := by
  cases op <;> decide

/-- The parser's binding powers order the operators by their levels. -/
theorem power_le_iff : op.token.power ≤ op'.token.power ↔ op.level ≤ op'.level := by
  have h := op.power_cases
  have h' := op'.power_cases
  omega

theorem token_ne_done (op : Operator) : op.token ≠ .done := by
  cases op <;> decide

/-- An operator is none of the symbols that make a step or a call. -/
theorem token_ne_symbol (op : Operator) {o : Symbol} (ho : o = .dot ∨ o = .openParen) :
    (op.token == .symbol o) = false := by
  rcases ho with rfl | rfl <;> cases op <;> decide

theorem power_lt_negationPower (op : Operator) : op.token.power < negationPower := by
  have h := op.power_cases
  unfold negationPower
  omega

end Operator

/-! ## Groupings -/

/-- Operands with operators between them. -/
structure Row (α : Type) where
  first : α
  rest : List (Operator × α)

/-- Operands grouped by the operators between them. -/
inductive Grouping (α : Type)
  | operand (x : α)
  | join (op : Operator) (left right : Grouping α)

namespace Grouping

variable {α : Type} {op : Operator} {g g' l r : Grouping α}

/-- The operator that is applied last. -/
def root? : Grouping α → Option Operator
  | operand _ => none
  | join op _ _ => some op

def first : Grouping α → α
  | operand x => x
  | join _ l _ => l.first

def rest : Grouping α → List (Operator × α)
  | operand _ => []
  | join op l r => l.rest ++ (op, r.first) :: r.rest

/-- The operands and operators of a grouping, in order. -/
def row (g : Grouping α) : Row α := ⟨g.first, g.rest⟩

/-- Whether a grouping respects the levels of its operators: at the root of a right operand is
an operator that binds tighter, and at the root of a left one an operator that binds at least as
tightly. -/
def Respects : Grouping α → Prop
  | operand _ => True
  | join op l r =>
    (l.Respects ∧ ∀ op' ∈ l.root?, op.level ≤ op'.level)
      ∧ r.Respects ∧ ∀ op' ∈ r.root?, op.level < op'.level

/-- The tree of a grouping of trees. -/
def tree : Grouping Tree → Tree
  | operand t => t
  | join op l r => .binary op l.tree r.tree

/-- No operator of a grouping binds less than the one at its root. -/
theorem le_level_of_mem (hg : g.Respects) {n : Nat} (hroot : ∀ op ∈ g.root?, n ≤ op.level) :
    ∀ x ∈ g.rest, n ≤ x.1.level := by
  induction g with
  | operand x => exact List.forall_mem_nil _
  | join op l r ihl ihr =>
    obtain ⟨⟨hl, hlroot⟩, hr, hrroot⟩ := hg
    have hop : n ≤ op.level := hroot op rfl
    rw [rest, List.forall_mem_append, List.forall_mem_cons]
    refine ⟨ihl hl ?_, hop, ihr hr ?_⟩
    · exact fun op' hop' => hop.trans (hlroot op' hop')
    · exact fun op' hop' => hop.trans (hrroot op' hop').le

theorem level_le_of_mem_left (h : (join op l r).Respects) : ∀ x ∈ l.rest, op.level ≤ x.1.level :=
  le_level_of_mem h.1.1 h.1.2

theorem level_lt_of_mem_right (h : (join op l r).Respects) : ∀ x ∈ r.rest, op.level < x.1.level :=
  le_level_of_mem h.2.1 h.2.2

/-- The root of one grouping of a row does not stand in the left operand of another: each of the
two operators would have to bind tighter than the other one. -/
theorem root_not_mem_left {op op' : Operator} {l r l' r' : Grouping α}
    (h : (join op l r).Respects) (h' : (join op' l' r').Respects) {x : Operator × α}
    {xs : List (Operator × α)} (hl : l'.rest = l.rest ++ x :: xs)
    (hr : (op, r.first) :: r.rest = x :: xs ++ (op', r'.first) :: r'.rest) : False := by
  obtain ⟨rfl, hrest⟩ := List.cons.inj hr
  have hle := level_le_of_mem_left h' (op, r.first) (by rw [hl]; simp)
  have hlt := level_lt_of_mem_right h (op', r'.first) (by rw [hrest]; simp)
  exact Nat.lt_irrefl _ (hlt.trans_le hle)

/-- **There is one grouping of a row that respects the levels.** -/
theorem eq_of_row_eq (hg : g.Respects) (hg' : g'.Respects) (h : g.row = g'.row) : g = g' := by
  induction g generalizing g' with
  | operand x =>
    cases g' with
    | operand y =>
      obtain rfl : x = y := (Row.mk.inj h).1
      rfl
    | join op' l' r' => simp [row, rest] at h
  | join op l r ihl ihr =>
    cases g' with
    | operand y => simp [row, rest] at h
    | join op' l' r' =>
      obtain ⟨hfirst, hrest⟩ := Row.mk.inj h
      -- the roots stand at the same place
      obtain ⟨hl, hr⟩ : l.rest = l'.rest ∧ (op, r.first) :: r.rest = (op', r'.first) :: r'.rest := by
        rcases List.append_eq_append_iff.1 hrest with ⟨xs, hl, hr⟩ | ⟨xs, hl, hr⟩
        · cases xs with
          | nil => exact ⟨by simpa using hl.symm, hr⟩
          | cons x xs => exact (root_not_mem_left hg hg' hl hr).elim
        · cases xs with
          | nil => exact ⟨by simpa using hl, hr.symm⟩
          | cons x xs => exact (root_not_mem_left hg' hg hl hr).elim
      obtain ⟨hop, hrrest⟩ := List.cons.inj hr
      obtain ⟨rfl, hrfirst⟩ := Prod.mk.inj hop
      rw [ihl hg.1.1 hg'.1.1 (congrArg₂ Row.mk hfirst hl),
        ihr hg.2.1 hg'.2.1 (congrArg₂ Row.mk hrfirst hrrest)]

end Grouping

/-! ## Operands -/

/-- An operand as it is written: a literal, a name, or a group in parentheses, with any number of
minus signs before it. -/
inductive Operand
  | number (x : Binary64)
  | string (s : String)
  | name (x : String)
  | minus (o : Operand)
  | group (inner : List Token) (balanced : Balanced inner)

namespace Operand

def tokens : Operand → List Token
  | number x => [.number x]
  | string s => [.string s]
  | name x => [.name x]
  | minus o => .symbol .minus :: o.tokens
  | group inner _ => .symbol .openParen :: (inner ++ [.symbol .closeParen])

/-- The tree is that of the operand.  That of a group is what the parser of groups yields at
some place where these tokens stand. -/
def ReadAs : Operand → Tree → Prop
  | number x, t => t = .literal (Parser.numberLiteral x)
  | string s, t => t = .literal (.string s)
  | name x, t => t = Parser.nameOperand x
  | minus o, t => ∃ u, o.ReadAs u ∧ t = .negate u
  | group inner _, t => ∃ (n : Nat) (s s' : ParseState), s.Ended
    ∧ s.tokens = inner ++ .symbol .closeParen :: s'.tokens
    ∧ (Parser.block (Parser.below n n)).run s = .ok (t, s')

/-- An operand does not bind a variable outside of a group. -/
theorem ReadAs.isBind_eq {o : Operand} {t : Tree} (h : o.ReadAs t) : t.isBind = false := by
  cases o with
  | number | string =>
    obtain rfl := h
    rfl
  | name x =>
    obtain rfl := h
    unfold Parser.nameOperand
    split_ifs <;> rfl
  | minus o =>
    obtain ⟨u, -, rfl⟩ := h
    rfl
  | group inner balanced =>
    obtain ⟨n, s, s', -, -, hrun⟩ := h
    obtain ⟨items, -, -, rfl | ⟨-, hbind⟩⟩ := Parser.after_block_items _ s t s' hrun
    · rfl
    · exact hbind

/-- No operand starts with the end of a group. -/
theorem exists_cons_tokens (o : Operand) :
    ∃ t ts, o.tokens = t :: ts ∧ (t == .symbol .closeParen) = false := by
  cases o <;> exact ⟨_, _, rfl, rfl⟩

end Operand

namespace Row

/-- The tokens of operators with operands behind them. -/
def tokensOf (rest : List (Operator × Operand)) : List Token :=
  rest.flatMap fun x => x.1.token :: x.2.tokens

theorem tokensOf_append (rest rest' : List (Operator × Operand)) :
    tokensOf (rest ++ rest') = tokensOf rest ++ tokensOf rest' :=
  List.flatMap_append

/-- The tokens of a row of operands. -/
def tokens (row : Row Operand) : List Token := row.first.tokens ++ tokensOf row.rest

/-- The trees are those of the operands, with the same operators between them. -/
structure ReadAs (row : Row Operand) (trees : Row Tree) : Prop where
  first : row.first.ReadAs trees.first
  rest : List.Forall₂ (fun x y => x.1 = y.1 ∧ x.2.ReadAs y.2) row.rest trees.rest

/-- The tree groups the trees of the operands, in order, by the levels of the operators between
them, and no other grouping of these trees respects the levels. -/
def GroupsAs (row : Row Operand) (t : Tree) : Prop :=
  ∃ g : Grouping Tree, g.tree = t ∧ row.ReadAs g.row ∧ g.Respects
    ∧ ∀ g' : Grouping Tree, g'.row = g.row → g'.Respects → g' = g

end Row

/-- A grouping of operands that are read for themselves does not bind a variable. -/
theorem Grouping.isBind_tree {row : Row Operand} {g : Grouping Tree} (h : row.ReadAs g.row) :
    g.tree.isBind = false := by
  cases g with
  | operand t => exact h.first.isBind_eq
  | join op l r => rfl

/-! ## The parser -/

/-- A row ends before these tokens: the first one is no operator, and calls nothing. -/
def Closes (behind : List Token) : Prop :=
  ∃ stop more, behind = stop :: more ∧ stop.power = 0

namespace ParseState

variable {s : ParseState}

/-- The tokens left are operators with operands behind them, and then those behind the row. -/
structure Awaits (rest : List (Operator × Operand)) (behind : List Token) (s : ParseState) :
    Prop where
  ended : s.Ended
  tokens : s.tokens = Row.tokensOf rest ++ behind

/-- The token at hand and those behind it. -/
theorem next_of_tokens (hs : s.Ended) {t : Token} {ts : List Token} (h : s.tokens = t :: ts)
    (ht : t ≠ .done) : s.here.token = t ∧ s.next.tokens = ts ∧ s.next.Ended := by
  have hhere : s.here.token = t := (List.cons.inj h).1
  obtain ⟨htokens, hnext⟩ := tokens_next hs (by rwa [hhere])
  exact ⟨hhere, (List.cons.inj (htokens.symm.trans h)).2, hnext⟩

/-- Behind the row no operator is at hand. -/
theorem Awaits.power_eq {behind : List Token} (hbehind : Closes behind)
    (h : s.Awaits [] behind) : s.here.token.power = 0 := by
  obtain ⟨stop, more, rfl, hstop⟩ := hbehind
  have hhere : s.here.token = stop := (List.cons.inj h.tokens).1
  rw [hhere, hstop]

/-- A row is not called. -/
theorem Awaits.ne_openParen {rest : List (Operator × Operand)} {behind : List Token}
    (hbehind : Closes behind) (h : s.Awaits rest behind) :
    (s.here.token == .symbol .openParen) = false := by
  cases rest with
  | nil =>
    have hpower := h.power_eq hbehind
    rw [beq_eq_false_iff_ne]
    intro hhere
    rw [hhere] at hpower
    cases hpower
  | cons x rest =>
    have hhere : s.here.token = x.1.token := (List.cons.inj h.tokens).1
    rw [hhere]
    exact x.1.token_ne_symbol (Or.inr rfl)

end ParseState

namespace Parser

variable {power : Nat} {first : Operand} {taken left rest : List (Operator × Operand)}
  {behind : List Token} {g : Grouping Tree} {s : ParseState}

/-- Between two operators the operands taken so far are grouped by operators that bind tighter
than `power`, and `left` is what is left of the row. -/
structure Grouped (power : Nat) (first : Operand) (taken left : List (Operator × Operand))
    (behind : List Token) (g : Grouping Tree) (s : ParseState) : Prop where
  awaits : s.Awaits left behind
  reads : Row.ReadAs ⟨first, taken⟩ g.row
  respects : g.Respects
  root : ∀ op ∈ g.root?, power < op.token.power

/-- The tree groups the operand that comes first and the ones behind it, up to the first operator
that does not bind tighter than `power`. -/
def Groups (power : Nat) (first : Operand) (rest : List (Operator × Operand))
    (behind : List Token) (t : Tree) (s : ParseState) : Prop :=
  ∃ taken left g, rest = taken ++ left ∧ Grouped power first taken left behind g s
    ∧ (∀ x ∈ left.head?, x.1.token.power ≤ power) ∧ g.tree = t

/-- A parser of expressions groups every row that is at hand. -/
def GroupsRows (expr : Nat → Parser Tree) : Prop :=
  ∀ power first rest behind s, Closes behind → s.Ended →
    s.tokens = first.tokens ++ (Row.tokensOf rest ++ behind) →
      After (expr power) s (Groups power first rest behind)

/-- One more operator, with the operand on its right grouped. -/
theorem Grouped.join {op : Operator} {o : Operand} {taken' : List (Operator × Operand)}
    {g' : Grouping Tree} {s' : ParseState}
    (h : Grouped power first taken ((op, o) :: rest) behind g s)
    (hpower : power < op.token.power) (hnext : ∀ op' ∈ g.root?, op.level ≤ op'.level)
    (h' : Grouped op.token.power o taken' left behind g' s') :
    Grouped power first (taken ++ (op, o) :: taken') left behind (.join op g g') s' where
  awaits := h'.awaits
  reads := ⟨h.reads.first, List.rel_append h.reads.rest (.cons ⟨rfl, h'.reads.first⟩ h'.reads.rest)⟩
  respects := by
    refine ⟨⟨h.respects, hnext⟩, h'.respects, fun op' hop' => ?_⟩
    have hlt := h'.root op' hop'
    exact Nat.not_le.1 fun hle => Nat.not_le.2 hlt (Operator.power_le_iff.2 hle)
  root := by
    intro op' hop'
    cases hop'
    exact hpower

/-- Every operator binds tighter than nothing, so a row that is read with no power is read as a
whole. -/
theorem Groups.whole {t : Tree} (h : Groups 0 first rest behind t s) :
    ∃ g : Grouping Tree, s.Awaits [] behind ∧ Row.ReadAs ⟨first, rest⟩ g.row ∧ g.Respects
      ∧ g.tree = t := by
  obtain ⟨taken, left, g, rfl, hg, hstop, rfl⟩ := h
  obtain rfl : left = [] := by
    cases left with
    | nil => rfl
    | cons x left =>
      have hle := hstop x rfl
      have hcases := x.1.power_cases
      omega
  rw [List.append_nil]
  exact ⟨g, hg.awaits, hg.reads, hg.respects, rfl⟩

/-- An operator between two operands is applied to what is read behind it. -/
theorem after_operation_operator {expr : Nat → Parser Tree} {t : Tree} {op : Operator}
    {Q : Tree → ParseState → Prop} (hop : s.here.token = op.token)
    (h : After (expr op.token.power) s.next fun u => Q (.binary op t u)) :
    After (operation expr t) s Q := by
  refine after_take_next ?_
  rw [hop]
  have hbinary : After (do return .binary op t (← expr op.token.power)) s.next Q :=
    after_bind (h.imp fun u s' hu => after_pure hu)
  cases op <;> exact hbinary

/-- **The operators behind an operand are applied in the order of their levels.** -/
theorem groups_operationsFrom {below : Nat → Nat → Parser Tree}
    (hbelow : ∀ levels, GroupsRows (below levels)) {steps : Nat} (levels : Nat)
    (hbehind : Closes behind) (hg : Grouped power first taken left behind g s)
    (hsteps : s.tokens.length ≤ steps)
    (hnext : ∀ x ∈ left.head?, ∀ op ∈ g.root?, x.1.level ≤ op.level) :
    After (operationsFrom below power steps levels g.tree) s
      (Groups power first (taken ++ left) behind) := by
  -- on the operators left; each of them takes a token at least
  induction steps generalizing levels taken left g s with
  | zero => exact absurd hsteps (Nat.not_succ_le_zero _)
  | succ steps ih =>
    refine after_get ?_
    cases left with
    | nil =>
      rw [hg.awaits.power_eq hbehind, if_neg (Nat.not_lt_zero power)]
      exact after_pure ⟨taken, [], g, rfl, hg, by simp, rfl⟩
    | cons x rest =>
      obtain ⟨op, o⟩ := x
      have htokens : s.tokens = op.token :: (o.tokens ++ (Row.tokensOf rest ++ behind)) := by
        rw [hg.awaits.tokens]
        simp [Row.tokensOf]
      have hhere : s.here.token = op.token := (List.cons.inj htokens).1
      rw [hhere]
      split
      · rename_i hpower
        refine after_at? ?_
        rw [hhere, op.token_ne_symbol (Or.inl rfl), if_neg Bool.false_ne_true]
        cases levels with
        | zero => exact after_failHere
        | succ levels =>
          obtain ⟨-, hrest, hended⟩ :=
            ParseState.next_of_tokens hg.awaits.ended htokens op.token_ne_done
          refine after_bind (after_operation_operator hhere ?_)
          refine (hbelow levels op.token.power o rest behind s.next hbehind hended hrest).imp ?_
          rintro _ s' ⟨taken', left, g', rfl, hg', hstop, rfl⟩
          -- the operand behind the operator stopped at one that binds no tighter
          have hjoin := hg.join hpower (hnext (op, o) rfl) hg'
          have hlength : s'.tokens.length ≤ steps := by
            rw [htokens, Row.tokensOf_append] at hsteps
            rw [hg'.awaits.tokens]
            simp only [List.length_cons, List.length_append] at hsteps ⊢
            omega
          have hgroups := ih levels hjoin hlength fun x hx op' hop' => by
            cases hop'
            exact Operator.power_le_iff.1 (hstop x hx)
          rwa [List.append_assoc, List.cons_append] at hgroups
      · rename_i hpower
        refine after_pure ⟨taken, (op, o) :: rest, g, rfl, hg, fun x hx => ?_, rfl⟩
        cases hx
        exact Nat.not_lt.1 hpower

/-- **An operand is read as it is written.** -/
theorem after_operand_row {n : Nat} (hn : GroupsRows (below n n)) (o : Operand)
    (hbehind : Closes behind) (hs : s.Ended)
    (htokens : s.tokens = o.tokens ++ (Row.tokensOf rest ++ behind)) :
    After (operand (below n n)) s fun t s' => s'.Awaits rest behind ∧ o.ReadAs t := by
  refine after_take_next ?_
  cases o with
  | number x =>
    obtain ⟨hhere, hrest, hended⟩ := ParseState.next_of_tokens hs htokens Token.noConfusion
    rw [hhere]
    exact after_pure ⟨⟨hended, hrest⟩, rfl⟩
  | string x =>
    obtain ⟨hhere, hrest, hended⟩ := ParseState.next_of_tokens hs htokens Token.noConfusion
    rw [hhere]
    exact after_pure ⟨⟨hended, hrest⟩, rfl⟩
  | name x =>
    obtain ⟨hhere, hrest, hended⟩ := ParseState.next_of_tokens hs htokens Token.noConfusion
    have hawaits : s.next.Awaits rest behind := ⟨hended, hrest⟩
    have hname : After (pure (nameOperand x)) s.next fun t s' =>
        s'.Awaits rest behind ∧ (Operand.name x).ReadAs t := after_pure ⟨hawaits, rfl⟩
    rw [hhere]
    show After (if x == "function" then _ else pure (nameOperand x)) _ _
    split
    · refine after_at? ?_
      rw [hawaits.ne_openParen hbehind]
      exact hname
    · exact hname
  | minus o =>
    obtain ⟨hhere, hrest, hended⟩ := ParseState.next_of_tokens hs htokens Token.noConfusion
    rw [hhere]
    refine after_bind ((hn negationPower o rest behind s.next hbehind hended hrest).imp ?_)
    rintro _ s' ⟨taken, left, g, rfl, hg, -, rfl⟩
    -- no operator binds tighter than the sign, so none is taken
    cases g with
    | operand t =>
      obtain rfl : taken = [] := by
        have h := hg.reads.rest
        cases h
        rfl
      exact after_pure ⟨hg.awaits, t, hg.reads.first, rfl⟩
    | join op l r => exact absurd (hg.root op rfl) (Nat.lt_asymm op.power_lt_negationPower)
  | group inner balanced =>
    have hgroup : s.tokens = .symbol .openParen ::
        (inner ++ .symbol .closeParen :: (Row.tokensOf rest ++ behind)) := by
      rw [htokens]
      simp [Operand.tokens]
    obtain ⟨hhere, hrest, hended⟩ := ParseState.next_of_tokens hs hgroup Token.noConfusion
    rw [hhere]
    intro t s' hrun
    obtain ⟨hended', htokens'⟩ := after_group n n hended balanced hrest t s' hrun
    exact ⟨⟨hended', htokens'⟩, n, s.next, s', hended, htokens' ▸ hrest, hrun⟩

/-- **Every parser of expressions groups rows by the levels of their operators.** -/
theorem groupsRows_below (n levels : Nat) : GroupsRows (below n levels) := by
  induction n generalizing levels with
  | zero => exact fun power first rest behind s _ _ _ => after_failHere
  | succ n ih =>
    intro power first rest behind s hbehind hs htokens
    rw [below]
    split
    · exact ih levels power first rest behind s hbehind hs htokens
    · refine after_bind ((after_operand_row (ih n) first hbehind hs htokens).imp ?_)
      rintro t s' ⟨hawaits, ht⟩
      have hfirst : Grouped power first [] rest behind (.operand t) s' := {
        awaits := hawaits
        reads := ⟨ht, .nil⟩
        respects := trivial
        root := by
          intro op hop
          cases hop }
      refine after_left (groups_operationsFrom ih n hbehind hfirst ?_ ?_)
      · rw [ParseState.tokens, List.length_map, List.length_cons]
      · intro x _ op hop
        cases hop

/-- A row that is read with no power is grouped as a whole. -/
theorem after_below_row (n levels : Nat) {row : Row Operand} (hbehind : Closes behind)
    (hs : s.Ended) (htokens : s.tokens = row.tokens ++ behind) :
    After (below n levels 0) s fun t s' => s'.Awaits [] behind ∧ row.GroupsAs t := by
  rw [Row.tokens, List.append_assoc] at htokens
  refine (groupsRows_below n levels 0 row.first row.rest behind s hbehind hs htokens).imp ?_
  intro t s' h
  obtain ⟨g, hawaits, hread, hrespects, htree⟩ := h.whole
  exact ⟨hawaits, g, htree, hread, hrespects,
    fun g' hg' hrespects' => Grouping.eq_of_row_eq hrespects' hrespects hg'⟩

/-- **A group that holds a row stands for that row.** -/
theorem after_block_row (n : Nat) {row : Row Operand} (hs : s.Ended)
    (htokens : s.tokens = row.tokens ++ .symbol .closeParen :: behind) :
    After (block (below n n)) s fun t _ => row.GroupsAs t := by
  have hitems : After (blockFrom (below n n) (s.later.length + 2) []) s
      fun items _ => ∃ t, items = [t] ∧ row.GroupsAs t := by
    obtain ⟨t, ts, hfirst, ht⟩ := row.first.exists_cons_tokens
    have hhere : s.here.token = t := by
      rw [Row.tokens, hfirst] at htokens
      exact (List.cons.inj htokens).1
    refine after_at? ?_
    rw [hhere, ht, if_neg Bool.false_ne_true]
    refine after_bind ((after_below_row n n ⟨_, _, rfl, rfl⟩ hs htokens).imp ?_)
    rintro t s' ⟨hawaits, hgroups⟩
    have hclose : s'.here.token = .symbol .closeParen := (List.cons.inj hawaits.tokens).1
    refine after_bind (after_at? ?_)
    rw [hclose]
    exact after_pure (after_pure ⟨t, rfl, hgroups⟩)
  refine after_left (after_bind (hitems.imp ?_))
  rintro _ s' ⟨_, rfl, g, rfl, hread, hunique⟩
  refine after_step fun _ s'' => ?_
  show After (pure (if g.tree.isBind then .block [g.tree] else g.tree)) s'' _
  rw [Grouping.isBind_tree hread, if_neg Bool.false_ne_true]
  exact after_pure ⟨g, rfl, hread, hunique⟩

end Parser

/-! ## Whole texts -/

/-- **Operators group by their levels.**  If a text compiles whose tokens are a row of operands
with operators between them, then its tree groups the trees of the operands, each of which is
read for itself, by the operators between them, in the order in which they are written.  The
grouping respects the levels of the operators, and it is the only one of these trees that does.
The same is true of every group among the operands, at any depth, whose tokens are such a row. -/
theorem operators_group_by_level {source : String} {t : Tree} {ls : List Located}
    {row : Row Operand} (h : compileTree source = .ok t) (htokens : tokens source = .ok ls)
    (hrow : ls.map Located.token = row.tokens ++ [.done]) :
    row.GroupsAs t ∧ ∀ (row' : Row Operand) (balanced : Balanced row'.tokens) (t' : Tree),
      (Operand.group row'.tokens balanced).ReadAs t' → row'.GroupsAs t' := by
  constructor
  · obtain ⟨here, later, s, hsource, hrun⟩ := Parser.exists_whole_of_compileTree h
    obtain rfl : ls = here :: later := Except.ok.inj (htokens.symm.trans hsource)
    have hended : Ended (here :: later) := Lexer.ended_tokensFrom hsource
    have hwhole : Parser.After Parser.whole ⟨here, later, []⟩ fun t _ => row.GroupsAs t := by
      have hexpression := Parser.after_below_row (s := ⟨here, later, []⟩) maxNesting maxNesting
        ⟨.done, [], rfl, rfl⟩ hended hrow
      refine Parser.after_bind (hexpression.imp ?_)
      rintro t s' ⟨-, hgroups⟩
      refine Parser.after_get ?_
      split
      · exact Parser.after_bind Parser.after_failHere
      · exact Parser.after_pure hgroups
    exact hwhole t s hrun
  · rintro row' balanced t' ⟨n, s, s', hs, hinner, hrun⟩
    exact Parser.after_block_row n hs hinner t' s' hrun

/-- A row of a name, a product with a negated group, and a comparison. -/
def sampleRow : Row Operand :=
  ⟨.name "a", [(.add, .name "b"), (.multiply, .minus (.group [.name "c"] (.cons rfl .nil))),
    (.less, .string "d")]⟩

theorem sampleRow_groups_by_level : ∃ t ls, compileTree "a + b * -(c) < 'd'" = .ok t
    ∧ tokens "a + b * -(c) < 'd'" = .ok ls
    ∧ ls.map Located.token = sampleRow.tokens ++ [.done] ∧ sampleRow.GroupsAs t := by
  have hok : (compileTree "a + b * -(c) < 'd'").isOk = true := by decide +kernel
  have hrow : (tokens "a + b * -(c) < 'd'").toOption.map (List.map Located.token) =
      some (sampleRow.tokens ++ [.done]) := by
    decide +kernel
  cases h : compileTree "a + b * -(c) < 'd'" with
  | error f =>
    rw [h] at hok
    cases hok
  | ok t =>
    cases hls : tokens "a + b * -(c) < 'd'" with
    | error f =>
      rw [hls] at hrow
      cases hrow
    | ok ls =>
      rw [hls, Except.toOption, Option.map_some, Option.some_inj] at hrow
      exact ⟨t, ls, rfl, rfl, hrow, (operators_group_by_level h hls hrow).1⟩

end Reshape.Expression
