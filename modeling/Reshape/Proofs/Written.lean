/-
# What the parser makes of tokens

The parser invents no places and no documents.  Every place that it points to, in a fault or in
a call of the tree that it yields, is the place of a token that it was given, and the literals
of the tree are scalars (`reports_parseTokens`).  So what is known of the places of the tokens,
say that they lie within the text, is known of all these places.

This is followed through the parser by `Points`, which speaks of both ends of a computation: of
what it yields, and of the fault with which it fails.
-/
import Reshape.Expression.Compiled
import Reshape.Proofs.Documents
import Reshape.Proofs.Subtrees

namespace Reshape.Expression

/-! ## Both ends of a computation -/

/-- If the computation succeeds, `P` holds of what it yields, and if it fails, its fault is at
one of the given places. -/
inductive Reports {α : Type} (Place : Nat → Prop) (P : α → Prop) : Except Fault α → Prop
  | ok {x : α} (h : P x) : Reports Place P (.ok x)
  | error {f : Fault} (h : Place f.position) : Reports Place P (.error f)

namespace Reports

variable {α β : Type} {Place : Nat → Prop} {P : α → Prop} {Q : β → Prop} {x : Except Fault α}

/-- Less may be asked of what is yielded. -/
theorem imp (h : Reports Place P x) {P' : α → Prop} (hP : ∀ v, P v → P' v) :
    Reports Place P' x := by
  cases h with
  | ok h => exact .ok (hP _ h)
  | error h => exact .error h

/-- What holds behind the first computation is all that the second may count on. -/
theorem bind {f : α → Except Fault β} (h : Reports Place P x)
    (hf : ∀ v, P v → Reports Place Q (f v)) : Reports Place Q (x >>= f) := by
  cases h with
  | ok h => exact hf _ h
  | error h => exact .error h

/-- What is made of the result has no fault of its own. -/
theorem map {f : α → β} (h : Reports Place P x) (hf : ∀ v, P v → Q (f v)) :
    Reports Place Q (x.map f) := by
  cases h with
  | ok h => exact .ok (hf _ h)
  | error h => exact .error h

theorem of_ok {v : α} (h : Reports Place P (.ok v)) : P v := by
  cases h with
  | ok h => exact h

theorem of_error {f : Fault} (h : Reports Place P (.error f)) : Place f.position := by
  cases h with
  | error h => exact h

end Reports

/-! ## Trees -/

namespace Tree

/-- The tree is no literal but that of a scalar, and no call but at one of the given places. -/
def IsWrittenAt (Place : Nat → Prop) : Tree → Prop
  | .literal v => v.IsScalar
  | .call _ _ position => Place position
  | _ => True

/-- All trees inside have scalars for literals, and calls at the given places only. -/
def WrittenAt (Place : Nat → Prop) (t : Tree) : Prop := ∀ u, Inside u t → u.IsWrittenAt Place

variable {Place : Nat → Prop} {t u : Tree}

/-- It holds of a tree if it holds of the root and of the parts. -/
theorem writtenAt_iff :
    t.WrittenAt Place ↔ t.IsWrittenAt Place ∧ ∀ u ∈ t.parts, u.WrittenAt Place :=
  forall_inside_iff

namespace WrittenAt

theorem of_parts (ht : t.IsWrittenAt Place) (h : ∀ u ∈ t.parts, u.WrittenAt Place) :
    t.WrittenAt Place :=
  writtenAt_iff.2 ⟨ht, h⟩

/-- Of a tree without parts only the root matters. -/
theorem leaf (ht : t.IsWrittenAt Place) (hparts : t.parts = []) : t.WrittenAt Place := by
  refine of_parts ht ?_
  rw [hparts]
  exact List.forall_mem_nil _

theorem of_mem_parts (h : t.WrittenAt Place) (hu : u ∈ t.parts) : u.WrittenAt Place :=
  (writtenAt_iff.1 h).2 u hu

end WrittenAt

end Tree

namespace Parser

variable {α β : Type} {Place : Nat → Prop} {P : α → Prop} {Q : β → Prop}

/-! ## Parsers -/

/-- The tokens left are at the given places. -/
def PlacedAt (Place : Nat → Prop) (s : ParseState) : Prop :=
  ∀ t ∈ s.here :: s.later, Place t.position

/-- There is always a token at hand, at one of the places. -/
theorem PlacedAt.here {s : ParseState} (h : PlacedAt Place s) : Place s.here.position :=
  h s.here List.mem_cons_self

/-- Given tokens at the given places, the parser points to no other place, and `P` holds of what
it yields. -/
def Points (Place : Nat → Prop) (P : α → Prop) (m : Parser α) : Prop :=
  ∀ s, PlacedAt Place s → Reports Place (fun r => P r.1 ∧ PlacedAt Place r.2) (m.run s)

/-- To yield something points nowhere. -/
theorem points_pure {x : α} (h : P x) : Points Place P (pure x) := fun _ hs => .ok ⟨h, hs⟩

/-- A fault may be at the places only. -/
theorem points_throw {f : Fault} (h : Place f.position) :
    Points Place P (throw f : Parser α) := fun _ _ => .error h

/-- A parser goes on with the tokens that the one before has left, which are at the places still.
-/
theorem Points.bind {m : Parser α} {f : α → Parser β} (h : Points Place P m)
    (hf : ∀ x, P x → Points Place Q (f x)) : Points Place Q (m >>= f) := by
  intro s hs
  rw [StateT.run_bind]
  exact (h s hs).bind fun r hr => hf r.1 hr.1 r.2 hr.2

theorem Points.imp {m : Parser α} {P' : α → Prop} (h : Points Place P m) (hP : ∀ x, P x → P' x) :
    Points Place P' m :=
  fun s hs => (h s hs).imp fun r hr => ⟨hP r.1 hr.1, hr.2⟩

/-- A first step of which only the places matter. -/
theorem Points.step {m : Parser α} {f : α → Parser β} (h : Points Place P m)
    (hf : ∀ x, Points Place Q (f x)) : Points Place Q (m >>= f) :=
  h.bind fun x _ => hf x

/-- A parser that begins by looking at its state. -/
theorem points_get {f : ParseState → Parser β}
    (hf : ∀ s, PlacedAt Place s → Points Place Q (f s)) : Points Place Q (do f (← get)) :=
  fun s hs => hf s hs s hs

/-- A fault at the token at hand is at one of the places. -/
theorem points_failHere (cause : Token → Cause) : Points Place P (failHere cause : Parser α) :=
  points_get fun _ hs => points_throw hs.here

/-- A computation that does not use the state. -/
theorem points_lift {x : Except Fault α} (h : Reports Place P x) :
    Points Place P (liftM x : Parser α) := by
  intro s hs
  cases h with
  | ok h => exact .ok ⟨h, hs⟩
  | error h => exact .error h

/-- The token that is taken is at one of the places, and so are those behind it. -/
theorem points_take : Points Place (fun t => Place t.position) take := by
  intro s hs
  obtain ⟨here, later, bound⟩ := s
  cases later with
  | nil => exact .ok ⟨hs.here, hs⟩
  | cons next later =>
    exact .ok ⟨hs.here, fun t ht => hs t (List.mem_cons_of_mem here ht)⟩

/-- To look at a token points nowhere. -/
theorem points_at? (o : Symbol) : Points Place (fun _ => True) (at? o) :=
  points_get fun _ _ => points_pure trivial

theorem points_left : Points Place (fun _ => True) left := points_get fun _ _ => points_pure trivial

/-- A symbol that is missing is reported where the next token stands. -/
theorem points_expect (o : Symbol) : Points Place (fun _ => True) (expect o) := by
  refine (points_at? o).step fun here => ?_
  cases here with
  | true => exact points_take.step fun _ => points_pure trivial
  | false => exact points_failHere _

/-- A symbol that may be there is taken or left alone. -/
theorem points_accept (o : Symbol) : Points Place (fun _ => True) (accept o) := by
  refine (points_at? o).step fun here => ?_
  cases here with
  | true => exact points_take.step fun _ => points_pure trivial
  | false => exact points_pure trivial

theorem points_noteBound (name : String) : Points Place (fun _ => True) (noteBound name) :=
  fun _ hs => .ok ⟨trivial, hs⟩

/-! ## Rows -/

/-- The items of a row, up to its closing symbol, are as each of them is. -/
theorem points_itemsFrom {item : Parser α} (hitem : Points Place P item) (close : Symbol)
    (steps : Nat) {acc : List α} (hacc : ∀ x ∈ acc, P x) :
    Points Place (fun xs => ∀ x ∈ xs, P x) (itemsFrom item close steps acc) := by
  induction steps generalizing acc with
  | zero => exact points_failHere _
  | succ steps ih =>
    refine hitem.bind fun v hv => (points_accept .comma).step fun more => ?_
    have hcons : ∀ x ∈ v :: acc, P x := List.forall_mem_cons.2 ⟨hv, hacc⟩
    cases more with
    | true => exact ih hcons
    | false =>
      refine (points_expect close).step fun _ => points_pure fun x hx => ?_
      exact hcons x (List.mem_reverse.1 hx)

/-- So are those of a row that may be empty. -/
theorem points_items {item : Parser α} (hitem : Points Place P item) (close : Symbol) :
    Points Place (fun xs => ∀ x ∈ xs, P x) (items item close) := by
  refine (points_accept close).step fun none => ?_
  cases none with
  | true => exact points_pure (List.forall_mem_nil _)
  | false => exact points_left.step fun n => points_itemsFrom hitem close n (List.forall_mem_nil _)

/-- A parameter that is no variable is reported at its own token. -/
theorem points_parameter : Points Place (fun _ => True) parameter := by
  refine points_take.bind fun t ht => ?_
  split
  · split_ifs
    · exact points_throw ht
    · exact (points_noteBound _).step fun _ => points_pure trivial
  · exact points_throw ht

/-! ## Trees that are put together -/

/-- A bare name is a literal of one word, or a field. -/
theorem writtenAt_nameOperand (name : String) : (nameOperand name).WrittenAt Place := by
  unfold nameOperand
  split_ifs <;> exact .leaf trivial rfl

/-- A numeral is a number, or null if it is beyond all of them. -/
theorem writtenAt_numberLiteral (x : Binary64) :
    (Tree.literal (numberLiteral x)).WrittenAt Place := by
  unfold numberLiteral
  split <;> exact .leaf trivial rfl

/-- A path that goes on keeps the steps that it has. -/
theorem writtenAt_addStep {left step : Tree} (hleft : left.WrittenAt Place)
    (hstep : step.WrittenAt Place) : (addStep left step).WrittenAt Place := by
  unfold addStep
  split
  · rename_i steps
    refine .of_parts trivial fun u hu => ?_
    rcases List.mem_append.1 hu with hu | hu
    · exact hleft.of_mem_parts hu
    · rw [List.mem_singleton.1 hu]
      exact hstep
  · exact .of_parts trivial (by simpa [Tree.parts] using ⟨hleft, hstep⟩)

/-- A chain puts its left side into the call on its right, which stays at its place. -/
theorem reports_chained {left right : Tree} {position : Nat} (hposition : Place position)
    (hleft : left.WrittenAt Place) (hright : right.WrittenAt Place) :
    Reports Place (fun t => t.WrittenAt Place) (chained left right position) := by
  unfold chained
  split
  · obtain ⟨hroot, hparts⟩ := Tree.writtenAt_iff.1 hright
    refine .ok (.of_parts hroot ?_)
    simp only [Tree.parts, List.forall_mem_cons] at hparts ⊢
    exact ⟨hparts.1, hleft, hparts.2⟩
  · exact .ok (.of_parts hposition (by simpa [Tree.parts] using ⟨hright, hleft⟩))
  · exact .ok (.of_parts hposition (by simpa [Tree.parts] using ⟨hright, hleft⟩))
  · exact .ok (.of_parts hposition (by simpa [Tree.parts] using ⟨hright, hleft⟩))
  · exact .error hposition

/-! ## Expressions -/

section Expressions

variable {expr : Nat → Parser Tree}
variable (hexpr : ∀ power, Points Place (fun t => t.WrittenAt Place) (expr power))

include hexpr

/-- An entry of an object is two expressions and a colon. -/
theorem points_entry :
    Points Place (fun e => e.1.WrittenAt Place ∧ e.2.WrittenAt Place) (entry expr) := by
  refine (hexpr 0).bind fun key hkey => (points_expect .colon).step fun _ => ?_
  exact (hexpr 0).bind fun value hvalue => points_pure ⟨hkey, hvalue⟩

/-- The expressions of a block, with semicolons between them, are as each of them is. -/
theorem points_blockFrom (steps : Nat) {acc : List Tree} (hacc : ∀ t ∈ acc, t.WrittenAt Place) :
    Points Place (fun ts => ∀ t ∈ ts, t.WrittenAt Place) (blockFrom expr steps acc) := by
  induction steps generalizing acc with
  | zero => exact points_failHere _
  | succ steps ih =>
    refine (points_at? .closeParen).step fun closed => ?_
    split
    · exact points_pure fun t ht => hacc t (List.mem_reverse.1 ht)
    · refine (hexpr 0).bind fun v hv => (points_accept .semicolon).step fun more => ?_
      have hcons : ∀ t ∈ v :: acc, t.WrittenAt Place := List.forall_mem_cons.2 ⟨hv, hacc⟩
      cases more with
      | true => exact ih hcons
      | false => exact points_pure fun t ht => hcons t (List.mem_reverse.1 ht)

/-- A block is its expressions, or the only one of them. -/
theorem points_block : Points Place (fun t => t.WrittenAt Place) (block expr) := by
  refine points_left.step fun n => ?_
  refine (points_blockFrom hexpr (n + 1) (List.forall_mem_nil _)).bind fun items hitems => ?_
  refine (points_expect .closeParen).step fun _ => ?_
  split
  · split
    · exact points_pure (.of_parts trivial hitems)
    · exact points_pure (hitems _ List.mem_cons_self)
  · exact points_pure (.of_parts trivial hitems)

/-- A lambda is its body. -/
theorem points_lambda : Points Place (fun t => t.WrittenAt Place) (lambda expr) := by
  refine (points_expect .openParen).step fun _ => ?_
  refine (points_items points_parameter .closeParen).step fun params => ?_
  refine (points_expect .openBrace).step fun _ => (hexpr 0).bind fun body hbody => ?_
  refine (points_expect .closeBrace).step fun _ => points_pure ?_
  exact .of_parts trivial (List.forall_mem_singleton.2 hbody)

omit hexpr in
/-- A name that is neither bound nor built in is reported where it stands. -/
theorem points_named (name : String) {position : Nat} (hposition : Place position) :
    Points Place (fun t => t.WrittenAt Place) (named name position) := by
  refine points_get fun s hs => ?_
  split
  · exact points_pure (.leaf trivial rfl)
  split
  · exact points_pure (.leaf trivial rfl)
  refine (points_at? .openParen).step fun called => ?_
  split
  · exact points_throw hposition
  · exact points_throw hposition

/-- A variable is bound, called or read; only a call has a place of its own. -/
theorem points_variableUse (name : String) {position : Nat} (hposition : Place position) :
    Points Place (fun t => t.WrittenAt Place) (variableUse expr name position) := by
  refine (points_at? .bind).step fun target => ?_
  split
  · exact (points_noteBound name).step fun _ => points_pure (.leaf trivial rfl)
  refine (points_named name hposition).bind fun callee hcallee => ?_
  refine (points_accept .openParen).step fun called => ?_
  cases called with
  | true =>
    refine (points_items (hexpr 0) .closeParen).bind fun args hargs => points_pure ?_
    exact .of_parts hposition (List.forall_mem_cons.2 ⟨hcallee, hargs⟩)
  | false => exact points_pure hcallee

/-- An operand begins with one token, by which the cases are split. -/
theorem points_operand : Points Place (fun t => t.WrittenAt Place) (operand expr) := by
  refine points_take.bind fun t ht => ?_
  -- numerals, strings, words, variables, minus, parentheses, brackets, braces, and no other token
  split
  · exact points_pure (writtenAt_numberLiteral _)
  · exact points_pure (.leaf trivial rfl)
  · split_ifs
    · refine (points_at? .openParen).step fun called => ?_
      split
      · exact points_lambda hexpr
      · exact points_pure (writtenAt_nameOperand _)
    · exact points_pure (writtenAt_nameOperand _)
  · split_ifs
    · exact points_pure (.leaf trivial rfl)
    · exact points_pure (.leaf trivial rfl)
    · exact points_variableUse hexpr _ ht
  · refine (hexpr negationPower).bind fun v hv => points_pure ?_
    exact .of_parts trivial (List.forall_mem_singleton.2 hv)
  · exact points_block hexpr
  · refine (points_items (hexpr 0) .closeBracket).bind fun items hitems => points_pure ?_
    exact .of_parts trivial hitems
  · refine (points_items (points_entry hexpr) .closeBrace).bind fun es hes => points_pure ?_
    exact .of_parts trivial (Tree.forall_mem_parts_object.2 hes)
  · exact points_throw ht

/-- An operation goes on from its left side; a chain is at the place of its operator. -/
theorem points_operation {left : Tree} (hleft : left.WrittenAt Place) :
    Points Place (fun t => t.WrittenAt Place) (operation expr left) := by
  refine points_take.bind fun t ht => ?_
  split
  · refine (hexpr stepPower).bind fun step hstep => points_pure ?_
    exact writtenAt_addStep hleft hstep
  · refine (points_at? .closeBracket).step fun closed => ?_
    split
    · exact (points_failHere (P := fun _ => False) _).bind fun _ h => h.elim
    refine (hexpr 0).bind fun v hv => (points_expect .closeBracket).step fun _ => points_pure ?_
    exact .of_parts trivial (by simpa [Tree.parts] using ⟨hleft, hv⟩)
  · refine (hexpr 0).bind fun yes hyes => (points_accept .colon).step fun more => ?_
    cases more with
    | true =>
      refine (hexpr 0).bind fun no hno => points_pure ?_
      exact .of_parts trivial (by simpa [Tree.parts] using ⟨hleft, hyes, hno⟩)
    | false =>
      exact points_pure (.of_parts trivial (by simpa [Tree.parts] using ⟨hleft, hyes⟩))
  · split
    · refine (hexpr bindPower).bind fun v hv => points_pure ?_
      exact .of_parts trivial (List.forall_mem_singleton.2 hv)
    · exact points_throw ht
  · refine (hexpr chainPower).bind fun right hright => ?_
    exact points_lift (reports_chained ht hleft hright)
  · exact points_throw ht
  · split
    · refine (hexpr _).bind fun v hv => points_pure ?_
      exact .of_parts trivial (by simpa [Tree.parts] using ⟨hleft, hv⟩)
    · exact points_throw ht

end Expressions

/-- Operations that follow each other are followed from left to right. -/
theorem points_operationsFrom {below : Nat → Nat → Parser Tree}
    (hbelow : ∀ levels power, Points Place (fun t => t.WrittenAt Place) (below levels power))
    (power steps levels : Nat) {left : Tree} (hleft : left.WrittenAt Place) :
    Points Place (fun t => t.WrittenAt Place)
      (operationsFrom below power steps levels left) := by
  induction steps generalizing levels left with
  | zero => exact points_pure hleft
  | succ steps ih =>
    have hstep : ∀ levels, Points Place (fun t => t.WrittenAt Place)
        (operation (below levels) left >>= operationsFrom below power steps levels) :=
      fun levels => (points_operation (hbelow levels) hleft).bind fun t ht => ih levels ht
    refine points_get fun s hs => ?_
    -- a step of a path takes no level, any other operation takes one
    split
    · refine (points_at? .dot).step fun dotted => ?_
      split
      · exact hstep levels
      · cases levels with
        | zero => exact points_failHere _
        | succ levels => exact hstep levels
    · exact points_pure hleft

/-- Each level is followed given those below it. -/
theorem points_below (n levels power : Nat) :
    Points Place (fun t => t.WrittenAt Place) (below n levels power) := by
  induction n generalizing levels power with
  | zero => exact points_failHere _
  | succ n ih =>
    rw [below]
    split
    · exact ih levels power
    refine (points_operand (ih n)).bind fun first hfirst => ?_
    exact points_left.step fun left => points_operationsFrom ih power left n hfirst

/-- Behind a whole expression nothing may be left. -/
theorem points_whole : Points Place (fun t => t.WrittenAt Place) whole := by
  refine (points_below maxNesting maxNesting 0).bind fun t ht => points_get fun s hs => ?_
  split
  · exact (points_failHere (P := fun _ => False) _).bind fun _ h => h.elim
  · exact points_pure ht

end Parser

/-- **The parser points to the places of its tokens only**, and its literals are scalars. -/
theorem reports_parseTokens {Place : Nat → Prop} {ts : List Located} (hne : ts ≠ [])
    (hts : ∀ t ∈ ts, Place t.position) :
    Reports Place (fun t => t.WrittenAt Place) (parseTokens ts) := by
  cases ts with
  | nil => exact absurd rfl hne
  | cons t later => exact (Parser.points_whole ⟨t, later, []⟩ hts).map fun r hr => hr.1

end Reshape.Expression
