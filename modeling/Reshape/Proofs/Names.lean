/-
# What a name means

The parser keeps one list of the names bound so far, and nothing is taken off it where a
block or a function ends.  So what a name means depends on the text before it alone: it is a
variable if the name was bound anywhere before, and else a built-in.

The names of a text are told in the order in which they are written (`Mention`).  A tree
spells them in that order (`Spells`), which is not always the order of its parts: the left
side of a chain becomes an argument of the call on its right.  What has been told when the
parser is in a state is an invariant of the parser (`Told`), and every parser tells the names
of the tree it yields (`Tells`).

One tree is not spelled yet when it is yielded: a name before `:=` was not looked up, so it
must not be used but as the left side of that binding (`Renders`).
-/
import Mathlib.Tactic
import Reshape.Proofs.Parsing
import Reshape.Proofs.Subtrees

namespace Reshape.Expression

/-! ## Names in a text -/

/-- The name that a token mentions.  The two variables for documents have none. -/
def Token.named? : Token → Option String
  | .var x => if x == "" || x == "$" then none else some x
  | _ => none

/-- The names that tokens mention, in order. -/
def namesOf (ts : List Located) : List String := ts.filterMap fun t => t.token.named?

theorem namesOf_cons_of_none {t : Located} (h : t.token.named? = none) (ts : List Located) :
    namesOf (t :: ts) = namesOf ts := by
  simp [namesOf, h]

theorem namesOf_cons_of_some {t : Located} {name : String} (h : t.token.named? = some name)
    (ts : List Located) : namesOf (t :: ts) = name :: namesOf ts := by
  simp [namesOf, h]

/-- What the parser makes of a name. -/
inductive Mention
  /-- The left side of a binding. -/
  | target (name : String)
  /-- A parameter of a function. -/
  | parameter (name : String)
  /-- A variable. -/
  | reference (name : String)
  /-- A built-in function. -/
  | builtin (f : Builtin)

namespace Mention

/-- The name as it is written. -/
def name : Mention → String
  | target name | parameter name | reference name => name
  | builtin f => f.name

/-- The names that are bound from there on. -/
def binds : Mention → List String
  | target name | parameter name => [name]
  | reference _ | builtin _ => []

/-- Whether a name can mean this where the names `before` are bound. -/
def Fits (before : List String) : Mention → Prop
  | reference name => name ∈ before
  | builtin f => f.name ∉ before
  | target _ | parameter _ => True

end Mention

/-- The names that are bound in a row of mentions. -/
def binders (row : List Mention) : List String := row.flatMap Mention.binds

theorem binders_append (row row' : List Mention) :
    binders (row ++ row') = binders row ++ binders row' :=
  List.flatMap_append

theorem binders_singleton (m : Mention) : binders [m] = m.binds :=
  List.flatMap_singleton ..

/-! ## Names in a tree -/

/-- Whether a tree mentions no name but in its parts. -/
def Tree.isNameless : Tree → Bool
  | .var _ | .builtin _ | .bind _ _ | .lambda _ _ => false
  | _ => true

/-- The tree is that of a text with these mentions, in this order. -/
inductive Spells : Tree → List Mention → Prop
  | parts {t : Tree} {rows : List (List Mention)} (ht : t.isNameless = true)
      (hparts : List.Forall₂ Spells t.parts rows) : Spells t rows.flatten
  | var (name : String) : Spells (.var name) [.reference name]
  | builtin (f : Builtin) : Spells (.builtin f) [.builtin f]
  | lambda {params : List String} {body : Tree} {row : List Mention} (hbody : Spells body row) :
      Spells (.lambda params body) (params.map .parameter ++ row)
  | bind {name : String} {v : Tree} {row : List Mention} (hv : Spells v row) :
      Spells (.bind name v) (.target name :: row)
  /-- The variable on the left stands in parentheses, so that it is looked up. -/
  | rebind {name : String} {v : Tree} {row : List Mention} (hv : Spells v row) :
      Spells (.bind name v) (.reference name :: row)
  /-- The left side of a chain stands before the call that takes it as its argument. -/
  | chainCall {left callee : Tree} {args : List Tree} {row row' : List Mention}
      {position position' : Nat} (hleft : Spells left row)
      (hright : Spells (.call callee args position) row') :
      Spells (.call callee (left :: args) position') (row ++ row')
  /-- The left side of a chain stands before the function that is called on it. -/
  | chain {left right : Tree} {row row' : List Mention} {position : Nat}
      (hleft : Spells left row) (hright : Spells right row') :
      Spells (.call right [left] position) (row ++ row')

namespace Spells

variable {t u v : Tree} {row row' row'' : List Mention}

theorem of_parts (rows : List (List Mention)) (hparts : List.Forall₂ Spells t.parts rows)
    (ht : t.isNameless = true) (hrow : row = rows.flatten) : Spells t row :=
  hrow ▸ parts ht hparts

theorem leaf (ht : t.isNameless = true) (hparts : t.parts = []) : Spells t [] := by
  refine of_parts [] ?_ ht rfl
  rw [hparts]
  exact .nil

/-- A tree with one part. -/
theorem one (ht : t.isNameless = true) (hparts : t.parts = [u]) (hu : Spells u row) :
    Spells t row := by
  refine of_parts [row] ?_ ht (by simp)
  rw [hparts]
  exact .cons hu .nil

/-- A tree with two parts. -/
theorem two (ht : t.isNameless = true) (hparts : t.parts = [u, v]) (hu : Spells u row)
    (hv : Spells v row') : Spells t (row ++ row') := by
  refine of_parts [row, row'] ?_ ht (by simp)
  rw [hparts]
  exact .cons hu (.cons hv .nil)

theorem three {w : Tree} (ht : t.isNameless = true) (hparts : t.parts = [u, v, w])
    (hu : Spells u row) (hv : Spells v row') (hw : Spells w row'') :
    Spells t (row ++ (row' ++ row'')) := by
  refine of_parts [row, row', row''] ?_ ht (by simp)
  rw [hparts]
  exact .cons hu (.cons hv (.cons hw .nil))

/-- The members of an object are spelled one after the other. -/
theorem object {entries : List (Tree × Tree)} {rows : List (List Mention)}
    (h : List.Forall₂ (fun e row => ∃ r r', row = r ++ r' ∧ Spells e.1 r ∧ Spells e.2 r')
      entries rows) : Spells (.object entries) rows.flatten := by
  suffices hparts : ∃ rows', rows'.flatten = rows.flatten ∧
      List.Forall₂ Spells (Tree.object entries).parts rows' by
    obtain ⟨rows', hflatten, hrows'⟩ := hparts
    exact of_parts rows' hrows' rfl hflatten.symm
  induction h with
  | nil => exact ⟨[], rfl, .nil⟩
  | cons he _ ih =>
    obtain ⟨r, r', rfl, hkey, hvalue⟩ := he
    obtain ⟨rows', hflatten, hrows'⟩ := ih
    refine ⟨r :: r' :: rows', ?_, .cons hkey (.cons hvalue hrows')⟩
    rw [List.flatten_cons, List.flatten_cons, List.flatten_cons, hflatten, List.append_assoc]

/-- A variable is spelled by its name. -/
theorem row_of_var {name : String} (h : Spells (.var name) row) : row = [.reference name] := by
  cases h with
  | parts ht => cases ht
  | var => rfl

end Spells

/-! ## What has been told -/

/-- The state behind the token at hand; the last token stays. -/
def ParseState.next (s : ParseState) : ParseState :=
  match s.later with
  | [] => s
  | t :: later => { s with here := t, later := later }

theorem ParseState.next_bound (s : ParseState) : s.next.bound = s.bound := by
  obtain ⟨here, later, bound⟩ := s
  cases later <;> rfl

/-- The end mark is the last token, and no other token is. -/
def Ended (ts : List Located) : Prop :=
  ∃ us position, ts = us ++ [⟨.done, position⟩] ∧ ∀ u ∈ us, u.token ≠ .done

theorem Ended.cons {t : Located} {ts : List Located} (h : Ended ts) (ht : t.token ≠ .done) :
    Ended (t :: ts) := by
  obtain ⟨us, position, rfl, hus⟩ := h
  exact ⟨t :: us, position, rfl, List.forall_mem_cons.2 ⟨ht, hus⟩⟩

theorem Ended.tail {t u : Located} {ts : List Located} (h : Ended (t :: u :: ts)) :
    Ended (u :: ts) := by
  obtain ⟨us, position, hts, hus⟩ := h
  cases us with
  | nil => cases hts
  | cons v us => exact ⟨us, position, (List.cons.inj hts).2, (List.forall_mem_cons.1 hus).2⟩

/-- Nothing is behind the end mark. -/
theorem Ended.tail_eq_nil {t : Located} {ts : List Located} (h : Ended (t :: ts))
    (ht : t.token = .done) : ts = [] := by
  obtain ⟨us, position, hts, hus⟩ := h
  cases us with
  | nil => exact (List.cons.inj hts).2
  | cons v us =>
    obtain ⟨rfl, -⟩ := List.cons.inj hts
    exact absurd ht (hus t List.mem_cons_self)

/-- The last token is the end mark. -/
theorem Ended.token_of_singleton {t : Located} (h : Ended [t]) : t.token = .done := by
  obtain ⟨us, position, hts, -⟩ := h
  cases us with
  | nil => rw [(List.cons.inj hts).1]
  | cons v us => exact absurd (List.cons.inj hts).2 (by simp)

/-- When the parser is in a state, `done` are the mentions of the names read, out of `all`
the names of the text. -/
structure Told (all : List String) (done : List Mention) (s : ParseState) : Prop where
  ended : Ended (s.here :: s.later)
  names : all = done.map Mention.name ++ namesOf (s.here :: s.later)
  bound : ∀ name, name ∈ s.bound ↔ name ∈ binders done
  fits : ∀ pre m post, done = pre ++ m :: post → m.Fits (binders pre)

namespace Told

variable {all : List String} {done : List Mention} {s : ParseState}

theorem init {ts : List Located} {t : Located} (h : Ended (t :: ts)) :
    Told (namesOf (t :: ts)) [] ⟨t, ts, []⟩ where
  ended := h
  names := rfl
  bound := fun _ => Iff.rfl
  fits := by
    intro pre m post hsplit
    cases pre <;> cases hsplit

/-- A token that is no name tells nothing. -/
theorem next (h : Told all done s) (hname : s.here.token.named? = none) :
    Told all done s.next := by
  obtain ⟨here, later, bound⟩ := s
  cases later with
  | nil => exact h
  | cons t later =>
    refine ⟨h.ended.tail, ?_, h.bound, h.fits⟩
    exact h.names.trans (congrArg _ (namesOf_cons_of_none hname _))

theorem next_symbol {o : Symbol} (h : Told all done s) (ho : s.here.token = .symbol o) :
    Told all done s.next :=
  h.next (by rw [ho]; rfl)

/-- A name is told once it is known what it means. -/
theorem mention (h : Told all done s) {m : Mention}
    (hname : s.here.token.named? = some m.name) (hfits : m.Fits (binders done)) :
    Told all (done ++ [m]) { s.next with bound := m.binds ++ s.next.bound } := by
  obtain ⟨here, later, bound⟩ := s
  cases later with
  | nil =>
    -- the last token is the end mark, which is no name
    rw [h.ended.token_of_singleton] at hname
    cases hname
  | cons t later =>
    refine ⟨h.ended.tail, ?_, ?_, ?_⟩
    · refine h.names.trans ?_
      rw [namesOf_cons_of_some hname, List.map_append, List.append_assoc]
      rfl
    · intro name
      rw [List.mem_append, ParseState.next_bound, h.bound, binders_append, List.mem_append,
        binders_singleton, or_comm]
    · intro pre m' post hsplit
      rcases List.eq_nil_or_concat post with rfl | ⟨post, last, rfl⟩
      · obtain ⟨rfl, hm⟩ := List.append_inj' hsplit rfl
        cases hm
        exact hfits
      · rw [List.concat_eq_append, ← List.cons_append, ← List.append_assoc] at hsplit
        exact h.fits pre m' post (List.append_inj' hsplit rfl).1

end Told

namespace Parser

variable {α β : Type} {all : List String} {done : List Mention} {s : ParseState} {o : Symbol}
  {R : α → List Mention → ParseState → Prop} {Q : β → List Mention → ParseState → Prop}

/-- The parser tells a row of mentions after those told before, and `R` holds of what it
yields, of that row and of the state behind it. -/
def Tells (all : List String) (done : List Mention) (m : Parser α) (s : ParseState)
    (R : α → List Mention → ParseState → Prop) : Prop :=
  After m s fun x s' => ∃ row, Told all (done ++ row) s' ∧ R x row s'

theorem tells_pure {x : α} (hs : Told all done s) (h : R x [] s) : Tells all done (pure x) s R :=
  after_pure ⟨[], by rwa [List.append_nil], h⟩

theorem Tells.imp {m : Parser α} {R' : α → List Mention → ParseState → Prop}
    (h : Tells all done m s R) (hR : ∀ x row s', R x row s' → R' x row s') :
    Tells all done m s R' := by
  refine After.imp h ?_
  rintro x s' ⟨row, hs', hx⟩
  exact ⟨row, hs', hR x row s' hx⟩

/-- What was told just before counts as told by the parser. -/
theorem tells_onto {m : Parser α} (row : List Mention)
    (h : Tells all (done ++ row) m s fun x row' => R x (row ++ row')) :
    Tells all done m s R := by
  refine After.imp h ?_
  rintro x s' ⟨row', hs', hx⟩
  exact ⟨row ++ row', by rwa [← List.append_assoc], hx⟩

/-- What a first parser tells counts as told by the parser that goes on. -/
theorem tells_continue {m : Parser α} {f : α → Parser β} (hm : Tells all done m s R)
    (hf : ∀ x row s', Told all (done ++ row) s' → R x row s' → Tells all done (f x) s' Q) :
    Tells all done (m >>= f) s Q := by
  refine after_bind (After.imp hm ?_)
  rintro x s' ⟨row, hs', hx⟩
  exact hf x row s' hs' hx

theorem tells_bind {m : Parser α} {f : α → Parser β} (hm : Tells all done m s R)
    (hf : ∀ x row s', Told all (done ++ row) s' → R x row s' →
      Tells all (done ++ row) (f x) s' fun y row' => Q y (row ++ row')) :
    Tells all done (m >>= f) s Q :=
  tells_continue hm fun x row s' hs' hx => tells_onto row (hf x row s' hs' hx)

/-- A parser that only makes something of what another one yields. -/
theorem tells_map {m : Parser α} {f : α → β} (hm : Tells all done m s R)
    (hf : ∀ x row s', R x row s' → Q (f x) row s') :
    Tells all done (do let x ← m; return f x) s Q :=
  tells_continue hm fun x row s' hs' hx => after_pure ⟨row, hs', hf x row s' hx⟩

/-- Taking a token leaves the state behind it. -/
theorem after_take_next {f : Located → Parser β} {P : β → ParseState → Prop}
    (h : After (f s.here) s.next P) : After (take >>= f) s P := by
  obtain ⟨here, later, bound⟩ := s
  cases later with
  | nil => exact h
  | cons t later => exact h

theorem tells_expect {f : Unit → Parser β} (hs : Told all done s)
    (h : s.here.token = .symbol o → Told all done s.next → Tells all done (f ()) s.next Q) :
    Tells all done (expect o >>= f) s Q := by
  refine after_bind (after_at? ?_)
  split
  · rename_i ho
    have ho := beq_iff_eq.1 ho
    exact after_take_next (after_pure (h ho (hs.next_symbol ho)))
  · exact after_failHere

theorem tells_accept {f : Bool → Parser β} (hs : Told all done s)
    (hyes : s.here.token = .symbol o → Told all done s.next → Tells all done (f true) s.next Q)
    (hno : Tells all done (f false) s Q) : Tells all done (accept o >>= f) s Q := by
  refine after_bind (after_at? ?_)
  split
  · rename_i ho
    have ho := beq_iff_eq.1 ho
    exact after_take_next (after_pure (hyes ho (hs.next_symbol ho)))
  · exact after_pure hno

theorem tells_left {f : Nat → Parser β}
    (h : Tells all done (f (s.later.length + 1)) s Q) : Tells all done (left >>= f) s Q :=
  h

/-! ## Rows -/

/-- A row tells what its items tell, one after the other.  An item may be unfinished if a
binding follows, since then the row is refused. -/
theorem tells_itemsFrom {R : α → List Mention → Prop} {item : Parser α} {close : Symbol}
    (hclose : close ≠ .bind)
    (hitem : ∀ s done, Told all done s → Tells all done item s fun x row s' =>
      R x row ∨ s'.here.token = .symbol .bind)
    (steps : Nat) (acc : List α) (hs : Told all done s) :
    Tells all done (itemsFrom item close steps acc) s fun xs row _ =>
      ∃ ys rows, xs = acc.reverse ++ ys ∧ row = rows.flatten ∧ List.Forall₂ R ys rows := by
  -- on the items to come, with those read as the accumulator
  induction steps generalizing acc s done with
  | zero => exact after_failHere
  | succ steps ih =>
    refine tells_bind (hitem s done hs) fun x row s' hs' hx => ?_
    -- neither a comma nor the closing symbol is a binding
    have hfinished : ∀ {o : Symbol}, o ≠ .bind → s'.here.token = .symbol o → R x row := by
      intro o ho hhere
      refine hx.resolve_right fun hbind => ho ?_
      exact Token.symbol.inj (hhere.symm.trans hbind)
    refine tells_accept hs' (fun hcomma hnext => ?_) ?_
    · -- more items
      refine (ih (x :: acc) hnext).imp ?_
      rintro xs row' s'' ⟨ys, rows, rfl, rfl, hrows⟩
      refine ⟨x :: ys, row :: rows, ?_, rfl, .cons (hfinished (by decide) hcomma) hrows⟩
      rw [List.reverse_cons, List.append_assoc, List.singleton_append]
    · -- the last one
      refine tells_expect hs' fun hhere hnext => tells_pure hnext ?_
      refine ⟨[x], [row], List.reverse_cons, ?_, .cons (hfinished hclose hhere) .nil⟩
      simp

theorem tells_items {R : α → List Mention → Prop} {item : Parser α} {close : Symbol}
    (hclose : close ≠ .bind)
    (hitem : ∀ s done, Told all done s → Tells all done item s fun x row s' =>
      R x row ∨ s'.here.token = .symbol .bind) (hs : Told all done s) :
    Tells all done (items item close) s fun xs row _ =>
      ∃ rows, row = rows.flatten ∧ List.Forall₂ R xs rows := by
  refine tells_accept hs (fun _ hnext => tells_pure hnext ⟨[], rfl, .nil⟩) ?_
  refine tells_left ((tells_itemsFrom hclose hitem _ [] hs).imp ?_)
  rintro xs row s' ⟨ys, rows, rfl, rfl, hrows⟩
  exact ⟨rows, rfl, hrows⟩

/-! ## Expressions -/

/-- The row spells the tree, unless a binding follows.  Then a tree that is a variable is the
left side of it. -/
def Renders (t : Tree) (row : List Mention) (s : ParseState) : Prop :=
  Spells t row ∨
    s.here.token = .symbol .bind ∧ ∀ name, t = .var name → row = [.target name]

namespace Renders

variable {t u : Tree} {row row' : List Mention}

theorem of_spells (h : Spells t row) : Renders t row s := Or.inl h

/-- A tree before another symbol is spelled. -/
theorem spells (h : Renders t row s) (ho : s.here.token = .symbol o) (hne : o ≠ .bind) :
    Spells t row := by
  refine h.resolve_right fun hbind => hne ?_
  exact Token.symbol.inj (ho.symm.trans hbind.1)

/-- A tree that ends with another is spelled if that one is. -/
theorem around (h : Renders u row' s) (ht : ∀ name, t ≠ .var name)
    (hspells : Spells u row' → Spells t row) : Renders t row s := by
  refine h.imp hspells fun hbind => ⟨hbind.1, fun name hname => ?_⟩
  exact absurd hname (ht name)

end Renders

theorem addStep_ne_var (left step : Tree) (name : String) : addStep left step ≠ .var name := by
  unfold addStep
  split
  · exact Tree.noConfusion
  · exact Tree.noConfusion

theorem chained_ne_var {left right t : Tree} {position : Nat}
    (h : chained left right position = .ok t) (name : String) : t ≠ .var name := by
  unfold chained at h
  split at h
  all_goals
    cases h
    try exact Tree.noConfusion

/-- A step is spelled behind the path it is added to. -/
theorem spells_addStep {left step : Tree} {row row' : List Mention}
    (hleft : Spells left row) (hstep : Spells step row') :
    Spells (addStep left step) (row ++ row') := by
  unfold addStep
  split
  · rename_i steps
    cases hleft with
    | parts ht hsteps =>
      rename_i rows
      refine .of_parts (rows ++ [row']) ?_ rfl (by simp)
      exact List.rel_append hsteps (.cons hstep .nil)
  · exact .two rfl rfl hleft hstep

/-- A chain is spelled from its left side on. -/
theorem spells_chained {left right t : Tree} {position : Nat} {row row' : List Mention}
    (hleft : Spells left row) (h : chained left right position = .ok t)
    (hright : Spells right row') : Spells t (row ++ row') := by
  unfold chained at h
  split at h
  · cases h
    exact .chainCall hleft hright
  all_goals
    cases h
    try exact .chain hleft hright

theorem named?_of_operator? {t : Token} {op : Operator} (h : t.operator? = some op) :
    t.named? = none := by
  cases t with
  | var => cases h
  | number | string | name | symbol | done => rfl

section Expressions

variable {expr : Nat → Parser Tree}
variable (hexpr : ∀ power s done, Told all done s → Tells all done (expr power) s Renders)

include hexpr

theorem tells_entry (hs : Told all done s) :
    Tells all done (entry expr) s fun e row s' =>
      (∃ r r', row = r ++ r' ∧ Spells e.1 r ∧ Spells e.2 r') ∨
        s'.here.token = .symbol .bind := by
  refine tells_bind (hexpr 0 s done hs) fun key r s' hs' hkey => ?_
  refine tells_expect hs' fun hcolon hnext => ?_
  refine tells_map (hexpr 0 _ _ hnext) fun value r' s' hvalue => ?_
  exact hvalue.imp (fun hvalue => ⟨r, r', rfl, hkey.spells hcolon (by decide), hvalue⟩) And.left

theorem tells_expressions {close : Symbol} (hclose : close ≠ .bind) (hs : Told all done s) :
    Tells all done (items (expr 0) close) s fun ts row _ =>
      ∃ rows, row = rows.flatten ∧ List.Forall₂ Spells ts rows :=
  tells_items hclose
    (fun s done hs => (hexpr 0 s done hs).imp fun _ _ _ h => h.imp id And.left) hs

theorem tells_blockFrom (steps : Nat) (acc : List Tree) (hs : Told all done s) :
    Tells all done (blockFrom expr steps acc) s fun ts row s' =>
      ∃ us rows, ts = acc.reverse ++ us ∧ row = rows.flatten ∧
        (s'.here.token ≠ .symbol .bind → List.Forall₂ Spells us rows) := by
  induction steps generalizing acc s done with
  | zero => exact after_failHere
  | succ steps ih =>
    refine after_at? ?_
    split
    · exact tells_pure hs ⟨[], [], (List.append_nil _).symm, rfl, fun _ => .nil⟩
    · -- whether a last expression without semicolon is finished is for the block to see
      refine tells_bind (hexpr 0 s done hs) fun v row s' hs' hv => ?_
      refine tells_accept hs' (fun hsemicolon hnext => ?_) ?_
      · refine (ih (v :: acc) hnext).imp ?_
        rintro ts row' s'' ⟨us, rows, rfl, rfl, hrows⟩
        refine ⟨v :: us, row :: rows, ?_, rfl, fun hother => ?_⟩
        · rw [List.reverse_cons, List.append_assoc, List.singleton_append]
        · exact .cons (hv.spells hsemicolon (by decide)) (hrows hother)
      · refine tells_pure hs' ⟨[v], [row], List.reverse_cons, by simp, fun hother => ?_⟩
        exact .cons (hv.resolve_right fun hbind => hother hbind.1) .nil

theorem tells_block (hs : Told all done s) :
    Tells all done (block expr) s fun t row _ => Spells t row := by
  refine tells_left (tells_bind (tells_blockFrom hexpr _ [] hs) ?_)
  rintro items row s' hs' ⟨_, rows, rfl, rfl, hrows⟩
  refine tells_expect hs' fun hclose hnext => ?_
  replace hrows := hrows (by rw [hclose]; decide)
  have hblock : Spells (.block items) (rows.flatten ++ []) :=
    .of_parts rows hrows rfl (List.append_nil _)
  split
  · -- one expression in parentheses
    rename_i v
    split
    · exact tells_pure hnext hblock
    · obtain ⟨r, hv, rfl⟩ : ∃ r, Spells v r ∧ rows = [r] := by
        cases hrows with
        | cons hv hnil =>
          cases hnil
          exact ⟨_, hv, rfl⟩
      exact tells_pure hnext (by simpa using hv)
  · exact tells_pure hnext hblock

omit hexpr in
theorem tells_parameter (hs : Told all done s) :
    Tells all done parameter s fun name row _ => row = [.parameter name] := by
  refine after_take_next ?_
  split
  · rename_i name htoken
    split
    · exact after_throw
    · rename_i hname
      refine after_pure ⟨[.parameter name], hs.mention (m := .parameter name) ?_ trivial, rfl⟩
      rw [htoken, Token.named?, if_neg hname, Mention.name]
  · exact after_throw

theorem tells_lambda (hs : Told all done s) :
    Tells all done (lambda expr) s fun t row _ => Spells t row := by
  refine tells_expect hs fun _ hs => ?_
  refine tells_bind (tells_items (R := fun name row => row = [.parameter name]) (by decide)
    (fun s done hs => (tells_parameter hs).imp fun _ _ _ h => Or.inl h) hs) ?_
  rintro params row s' hs ⟨rows, rfl, hrows⟩
  have hparams : rows.flatten = params.map .parameter := by
    clear hs
    induction hrows with
    | nil => rfl
    | cons hrow _ ih =>
      rw [hrow, List.flatten_cons, ih]
      rfl
  refine tells_expect hs fun _ hs => ?_
  refine tells_bind (hexpr 0 _ _ hs) fun body row s' hs hbody => ?_
  refine tells_expect hs fun hclose hs => tells_pure hs ?_
  rw [hparams, List.append_nil]
  exact .lambda (hbody.spells hclose (by decide))

omit hexpr in
/-- What a name means depends on the names bound before. -/
theorem after_named_means {name : String} (position : Nat)
    (hbound : ∀ name, name ∈ s.bound ↔ name ∈ binders done) :
    After (named name position) s fun t s' => s' = s ∧
      ∃ m : Mention, m.name = name ∧ m.binds = [] ∧ m.Fits (binders done) ∧ Spells t [m] := by
  refine after_get ?_
  split
  · rename_i hmem
    refine after_pure ⟨rfl, .reference name, rfl, rfl, ?_, .var name⟩
    exact (hbound name).1 (List.contains_iff_mem.1 hmem)
  · rename_i hmem
    split
    · rename_i f hf
      have hname := Builtin.name_of_ofName? hf
      refine after_pure ⟨rfl, .builtin f, hname, rfl, ?_, .builtin f⟩
      rw [Mention.Fits, hname, ← hbound]
      exact fun hbound => hmem (List.contains_iff_mem.2 hbound)
    · refine after_at? ?_
      split
      · exact after_throw
      · exact after_throw

/-- A name that was read is told, and the arguments it is called on. -/
theorem tells_variableUse {name : String} (position : Nat) (hs : Told all done s)
    (hname : s.here.token.named? = some name) :
    Tells all done (variableUse expr name position) s.next Renders := by
  refine after_at? ?_
  split
  · -- the left side of a binding
    rename_i hbind
    have htarget := hs.mention (m := .target name) hname trivial
    refine after_pure ⟨[.target name], htarget, Or.inr ⟨beq_iff_eq.1 hbind, ?_⟩⟩
    intro name' hname'
    cases hname'
    rfl
  · -- the name is looked up, and only then it is known what was told
    have hbound : ∀ name, name ∈ s.next.bound ↔ name ∈ binders done := by
      rw [s.next_bound]
      exact hs.bound
    refine after_bind ((after_named_means position hbound).imp ?_)
    rintro callee _ ⟨rfl, m, rfl, hbinds, hfits, hcallee⟩
    have hs' : Told all (done ++ [m]) s.next := by
      have hm := hs.mention hname hfits
      rwa [hbinds] at hm
    refine tells_onto [m]
      (tells_accept hs' (fun _ hnext => ?_) (tells_pure hs' (.of_spells hcallee)))
    refine tells_map (tells_expressions hexpr (by decide) hnext) ?_
    rintro args row s' ⟨rows, rfl, hrows⟩
    exact .of_spells (.of_parts ([m] :: rows) (.cons hcallee hrows) rfl rfl)

theorem tells_operand (hs : Told all done s) : Tells all done (operand expr) s Renders := by
  refine after_take_next ?_
  -- a token that names nothing, and a tree without parts
  have hleaf : ∀ t : Tree, t.isNameless = true → t.parts = [] → s.here.token.named? = none →
      Tells all done (pure t) s.next Renders := by
    intro t ht hparts hname
    exact tells_pure (hs.next hname) (.of_spells (.leaf ht hparts))
  have hsymbol : ∀ {o : Symbol}, s.here.token = .symbol o → Told all done s.next :=
    fun ho => hs.next_symbol ho
  split
  · -- a number
    rename_i x hx
    exact hleaf _ rfl rfl (by rw [hx]; rfl)
  · -- a string
    rename_i x hx
    exact hleaf _ rfl rfl (by rw [hx]; rfl)
  · -- a word
    rename_i name hx
    have hnone : s.here.token.named? = none := by rw [hx]; rfl
    have hname : Tells all done (pure (nameOperand name)) s.next Renders := by
      refine hleaf _ ?_ ?_ hnone
      · unfold nameOperand
        split_ifs <;> rfl
      · unfold nameOperand
        split_ifs <;> rfl
    split_ifs
    · refine after_at? ?_
      split
      · exact (tells_lambda hexpr (hs.next hnone)).imp fun _ _ _ => .of_spells
      · exact hname
    · exact hname
  · -- a variable, where only those for documents are no names
    rename_i name hx
    split_ifs with hempty hroot
    · exact hleaf _ rfl rfl (by rw [hx, Token.named?, if_pos (by rw [hempty, Bool.true_or])])
    · exact hleaf _ rfl rfl (by rw [hx, Token.named?, if_pos (by rw [hroot, Bool.or_true])])
    · refine tells_variableUse hexpr _ hs ?_
      rw [hx, Token.named?, if_neg]
      simp [hempty, hroot]
  · -- a minus sign
    rename_i ho
    refine tells_map (hexpr negationPower _ _ (hsymbol ho)) fun v row s' hv => ?_
    exact hv.around (by simp) (.one rfl rfl)
  · -- a group
    rename_i ho
    exact (tells_block hexpr (hsymbol ho)).imp fun _ _ _ => .of_spells
  · -- an array
    rename_i ho
    refine tells_map (tells_expressions hexpr (by decide) (hsymbol ho)) ?_
    rintro items row s' ⟨rows, rfl, hrows⟩
    exact .of_spells (.of_parts rows hrows rfl rfl)
  · -- an object
    rename_i ho
    refine tells_map (tells_items (by decide) (fun _ _ hs => tells_entry hexpr hs)
      (hsymbol ho)) ?_
    rintro entries row s' ⟨rows, rfl, hrows⟩
    exact .of_spells (.object hrows)
  · exact after_throw

/-- An operator tells what is behind it, and spells the operand before it too. -/
theorem tells_operation {left : Tree} {row : List Mention} (hs : Told all (done ++ row) s)
    (hleft : Renders left row s) :
    Tells all done (operation expr left) s Renders := by
  -- the names of the operand count as told by the operator
  refine tells_onto row (after_take_next ?_)
  have hspells : ∀ {o : Symbol}, s.here.token = .symbol o → o ≠ .bind → Spells left row :=
    fun ho hne => hleft.spells ho hne
  have hsymbol : ∀ {o : Symbol}, s.here.token = .symbol o → Told all (done ++ row) s.next :=
    fun ho => hs.next_symbol ho
  split
  · -- a step
    rename_i ho
    refine tells_map (hexpr stepPower _ _ (hsymbol ho)) fun step row' s' hstep => ?_
    exact hstep.around (addStep_ne_var left step) (spells_addStep (hspells ho (by decide)))
  · -- a predicate
    rename_i ho
    refine after_at? ?_
    split
    · exact after_bind after_failHere
    · refine tells_bind (hexpr 0 _ _ (hsymbol ho)) fun v row' s' hs' hv => ?_
      refine tells_expect hs' fun hclose hs' => tells_pure hs' (.of_spells ?_)
      rw [List.append_nil]
      exact .two rfl rfl (hspells ho (by decide)) (hv.spells hclose (by decide))
  · -- a condition
    rename_i ho
    have hleft := hspells ho (by decide)
    refine tells_bind (hexpr 0 _ _ (hsymbol ho)) fun yes row' s' hs' hyes => ?_
    refine tells_accept hs' (fun hcolon hs' => ?_) ?_
    · refine tells_map (hexpr 0 _ _ hs') fun no row'' s' hno => ?_
      exact hno.around (by simp) (.three rfl rfl hleft (hyes.spells hcolon (by decide)))
    · refine tells_pure hs' (hyes.around (by simp) fun hyes => ?_)
      rw [List.append_nil]
      exact .two rfl rfl hleft hyes
  · -- a binding
    rename_i ho
    split
    · rename_i name
      refine tells_map (hexpr bindPower _ _ (hsymbol ho)) fun v row' s' hv => ?_
      refine hv.around (by simp) fun hv => ?_
      -- a variable in parentheses was looked up, another one is the target
      rcases hleft with hspelled | ⟨-, htarget⟩
      · rw [hspelled.row_of_var]
        exact .rebind hv
      · rw [htarget name rfl]
        exact .bind hv
    · exact after_throw
  · -- a chain
    rename_i ho
    refine tells_bind (hexpr chainPower _ _ (hsymbol ho)) fun right row' s' hs' hright => ?_
    refine after_lift fun t ht => ⟨[], by rwa [List.append_nil], ?_⟩
    show Renders t (row ++ (row' ++ [])) s'
    rw [List.append_nil]
    exact hright.around (chained_ne_var ht) (spells_chained (hspells ho (by decide)) ht)
  · exact after_throw
  · rename_i hother
    split
    · -- an operator between two operands
      rename_i op hop
      have hname : s.here.token.named? = none := named?_of_operator? hop
      have hleft := hleft.resolve_right fun hbind => by
        rw [hbind.1] at hop
        cases hop
      refine tells_map (hexpr _ _ _ (hs.next hname)) fun v row' s' hv => ?_
      exact hv.around (by simp) (.two rfl rfl hleft)
    · exact after_throw

end Expressions

theorem tells_operationsFrom {below : Nat → Nat → Parser Tree}
    (hbelow : ∀ levels power s done, Told all done s →
      Tells all done (below levels power) s Renders)
    (power steps levels : Nat) {left : Tree} {row : List Mention}
    (hs : Told all (done ++ row) s) (hleft : Renders left row s) :
    Tells all done (operationsFrom below power steps levels left) s Renders := by
  -- on the operators left; what the operand tells grows with each of them
  induction steps generalizing levels left row s with
  | zero => exact after_pure ⟨row, hs, hleft⟩
  | succ steps ih =>
    have hstep : ∀ levels, Tells all done (operation (below levels) left) s Renders :=
      fun levels => tells_operation (hbelow levels) hs hleft
    refine after_get ?_
    split
    · refine after_at? ?_
      split
      · exact tells_continue (hstep levels) fun t row' s' hs' ht => ih levels hs' ht
      · cases levels with
        | zero => exact after_failHere
        | succ levels =>
          exact tells_continue (hstep levels) fun t row' s' hs' ht => ih levels hs' ht
    · exact after_pure ⟨row, hs, hleft⟩

/-- **An expression tells the names of its tree.** -/
theorem tells_below (n levels power : Nat) (hs : Told all done s) :
    Tells all done (below n levels power) s Renders := by
  induction n generalizing levels power s done with
  | zero => exact after_failHere
  | succ n ih =>
    have ih' := fun levels power s done (hs : Told all done s) => ih levels power hs
    rw [below]
    split
    · exact ih levels power hs
    · refine tells_continue (tells_operand (ih' n) hs) fun first row s' hs' hfirst => ?_
      exact tells_left (tells_operationsFrom ih' power _ n hs' hfirst)

theorem tells_whole (hs : Told all done s) :
    After whole s fun t s' => ∃ row, Told all (done ++ row) s' ∧ s'.here.token = .done
      ∧ Spells t row := by
  refine after_bind (After.imp (tells_below maxNesting _ 0 hs) ?_)
  rintro t s' ⟨row, hs', ht⟩
  refine after_get ?_
  split
  · exact after_bind after_failHere
  · rename_i hdone
    have hdone : s'.here.token = .done := by simpa using hdone
    refine after_pure ⟨row, hs', hdone, ht.resolve_right fun hbind => ?_⟩
    rw [hdone] at hbind
    cases hbind.1

end Parser

/-! ## Whole texts -/

/-- A lexeme is not the end mark. -/
theorem Lexer.token?_ne_done {offset : Nat} {c : Char} {rest : List Char} {l : Lexeme}
    (h : lexeme offset c rest = .ok l) : l.token? ≠ some .done := by
  unfold lexeme at h
  split at h
  · cases h
    simp
  split at h
  · split at h
    · cases h
      simp
    · cases h
  split at h
  · cases h
    simp [number]
  split at h
  · simp only [bind, Except.bind] at h
    split at h
    · cases h
    · cases h
      simp
  split at h
  · split at h
    · cases h
      simp
    · cases h
  split at h
  · cases h
    simp
  split at h
  · cases h
    simp
  split at h
  · cases h
    simp
  · cases h

theorem Lexer.ended_tokensFrom {steps offset : Nat} {cs : List Char} {ts : List Located}
    (h : tokensFrom steps offset cs = .ok ts) : Ended ts := by
  induction steps generalizing offset cs ts with
  | zero =>
    cases h
    exact ⟨[], offset, rfl, List.forall_mem_nil _⟩
  | succ steps ih =>
    cases cs with
    | nil =>
      cases h
      exact ⟨[], offset, rfl, List.forall_mem_nil _⟩
    | cons c rest =>
      simp only [tokensFrom, bind, Except.bind] at h
      split at h
      · cases h
      rename_i l hl
      split at h
      · cases h
      rename_i more hmore
      split at h
      · rename_i t ht
        cases h
        refine (ih hmore).cons fun hdone => token?_ne_done hl ?_
        rw [ht]
        exact congrArg some hdone
      · cases h
        exact ih hmore

/-- **A name means what the text before it says.**  In a text that compiles, each name is the
left side of a binding, a parameter, a variable or a built-in, told in the order in which the
names are written, and the tree spells exactly these.  A name is a variable only if it was
bound before, by a binding or as a parameter, no matter whether the block or the function in
which it was bound has ended; and it is a built-in only if it was not. -/
theorem names_mean_what_was_bound_before {source : String} {t : Tree}
    (h : compileTree source = .ok t) :
    ∃ ts row, tokens source = .ok ts ∧ namesOf ts = row.map Mention.name ∧ Spells t row
      ∧ ∀ pre m post, row = pre ++ m :: post → m.Fits (binders pre) := by
  obtain ⟨here, later, s, htokens, hrun⟩ := Parser.exists_whole_of_compileTree h
  have hinit := Told.init (Lexer.ended_tokensFrom htokens)
  obtain ⟨row, hs, hdone, hspells⟩ := Parser.tells_whole hinit t s hrun
  refine ⟨here :: later, row, htokens, ?_, hspells, hs.fits⟩
  have hnone : namesOf (s.here :: s.later) = [] := by
    rw [hs.ended.tail_eq_nil hdone, namesOf_cons_of_none (by rw [hdone]; rfl)]
    rfl
  rw [hs.names, hnone, List.append_nil]
  rfl

/-- The names of a text in which a block binds the name of a built-in that is called behind
it. -/
theorem bound_sum_is_told : ∃ t ts row,
    compileTree "[($sum := 1; $sum), $sum([1, 2])]" = .ok t
      ∧ tokens "[($sum := 1; $sum), $sum([1, 2])]" = .ok ts
      ∧ namesOf ts = row.map Mention.name ∧ Spells t row
      ∧ ∀ pre m post, row = pre ++ m :: post → m.Fits (binders pre) := by
  have hok : (compileTree "[($sum := 1; $sum), $sum([1, 2])]").isOk = true := by
    decide +kernel
  cases h : compileTree "[($sum := 1; $sum), $sum([1, 2])]" with
  | error f =>
    rw [h] at hok
    cases hok
  | ok t =>
    obtain ⟨ts, row, hnames⟩ := names_mean_what_was_bound_before h
    exact ⟨t, ts, row, rfl, hnames⟩

/-- Whether a tree calls the variable `$sum` behind a block that binds it. -/
def Tree.callsLeakedSum : Tree → Bool
  | .array [.block [.bind name (.literal _), .var name'], .call (.var name'') _ _] =>
    name == "sum" && name' == "sum" && name'' == "sum"
  | _ => false

/-- A name that a block binds still hides the built-in of that name behind the block, where
nothing is bound to it: the text compiles, and the call fails on every document. -/
theorem bound_name_outlives_its_block : ∃ one args position,
    compileTree "[($sum := 1; $sum), $sum([1, 2])]" =
        .ok (.array [.block [.bind "sum" (.literal one), .var "sum"],
          .call (.var "sum") args position])
      ∧ ∀ now input, result now (.array [.block [.bind "sum" (.literal one), .var "sum"],
          .call (.var "sum") args position]) input = .error .notAFunction := by
  have hshape : (compileTree "[($sum := 1; $sum), $sum([1, 2])]").toOption.map
      Tree.callsLeakedSum = some true := by
    decide +kernel
  cases h : compileTree "[($sum := 1; $sum), $sum([1, 2])]" with
  | error f =>
    rw [h] at hshape
    cases hshape
  | ok t =>
    rw [h, Except.toOption, Option.map_some, Option.some_inj] at hshape
    unfold Tree.callsLeakedSum at hshape
    split at hshape
    · rename_i name one name' name'' args position
      simp only [Bool.and_eq_true, beq_iff_eq] at hshape
      obtain ⟨⟨rfl, rfl⟩, rfl⟩ := hshape
      exact ⟨one, args, position, rfl, fun now input => rfl⟩
    · cases hshape

end Reshape.Expression
