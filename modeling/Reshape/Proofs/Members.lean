/-
# Members stay distinct

Whatever an expression makes of well-formed documents is well formed: no object that it
yields has two members of one name.  Operators and most functions yield scalars; arrays are
made of items that are there, and objects by setting one member after the other.

Functions on values are followed by `Ensures`, and evaluations by `Eval.Keeps`: from frames
whose values are well formed they come to such frames again, and what they yield is well
formed.  A function value carries its body, so the literals of the body matter too.
-/
import Mathlib.Tactic
import Reshape.Expression.Evaluation
import Reshape.Proofs.Distinct
import Reshape.Proofs.Literals
import Reshape.Proofs.Reading
import Reshape.Proofs.Subtrees

namespace Reshape.Expression

open Json (wellFormed_array wellFormed_object)

/-! ## Values -/

/-- What is defined is well formed. -/
def Value.WellFormed (v : Value) : Prop := ∀ w ∈ v, w.WellFormed

namespace Value.WellFormed

variable {v : Value} {w : Json} {items : List Json} {name : String}

/-- What is undefined is well formed. -/
theorem none : Value.WellFormed none := by
  intro w hw
  cases hw

theorem some (h : w.WellFormed) : Value.WellFormed (some w) := by
  intro u hu
  cases hu
  exact h

/-- What is defined is well formed as a document. -/
theorem of_some (h : Value.WellFormed (.some w)) : w.WellFormed := h w rfl

theorem toList (h : Value.WellFormed v) : ∀ w ∈ v.toList, w.WellFormed := by
  intro w hw
  exact h w (Option.mem_toList.1 hw)

theorem getD (h : Value.WellFormed v) (hw : w.WellFormed) : (v.getD w).WellFormed := by
  cases v with
  | none => exact hw
  | some u => exact h.of_some

/-- The items that a value spreads into are its own, or the value itself. -/
theorem spread (h : Value.WellFormed v) : ∀ w ∈ spread v, w.WellFormed := by
  unfold Expression.spread
  split
  · exact List.forall_mem_nil _
  · exact wellFormed_array.1 h.of_some
  · exact List.forall_mem_singleton.2 h.of_some

/-- Items that are put into one value are left as they are. -/
theorem sequence (h : ∀ w ∈ items, w.WellFormed) : Value.WellFormed (sequence items) := by
  unfold Expression.sequence
  split
  · exact none
  · exact some (h _ List.mem_cons_self)
  · exact some (wellFormed_array.2 h)

end Value.WellFormed

/-- A value that is no array is its only item. -/
theorem wellFormed_itemsOf {v : Json} (h : v.WellFormed) : ∀ w ∈ itemsOf v, w.WellFormed := by
  unfold itemsOf
  split
  · exact wellFormed_array.1 h
  · exact List.forall_mem_singleton.2 h

/-- The members of a name are well formed, also those of the items of an array. -/
theorem wellFormed_field (name : String) (v : Json) (h : v.WellFormed) :
    Value.WellFormed (field name v) := by
  induction v using Json.induction with
  | null | bool | number | string => exact .none
  | object members => exact fun w hw => h.of_get? hw
  | array items ih =>
    rw [field]
    refine .sequence ?_
    have hitems := wellFormed_array.1 h
    clear h
    induction items with
    | nil => exact List.forall_mem_nil _
    | cons v rest ihrest =>
      rw [fieldItems]
      obtain ⟨hv, hrest⟩ := List.forall_mem_cons.1 hitems
      obtain ⟨ihv, ihitems⟩ := List.forall_mem_cons.1 ih
      exact List.forall_mem_append.2 ⟨(ihv hv).spread, ihrest ihitems hrest⟩

/-! ## Operators -/

/-- A number that is a result is a scalar. -/
theorem ensures_numberResult (x : Binary64) : Ensures (numberResult x) Json.WellFormed := by
  unfold numberResult
  split
  · exact .ok trivial
  · exact .error _

/-- So is what arithmetic yields. -/
theorem ensures_arithmetic (op : Operator) (a b : Json) :
    Ensures (arithmetic op a b) Json.WellFormed := by
  unfold arithmetic
  split
  · exact ensures_numberResult _
  · exact .error _

/-- **Operators yield well-formed values**: scalars, or nothing. -/
theorem Operator.ensures_apply (op : Operator) (l r : Value) :
    Ensures (op.apply l r) Value.WellFormed := by
  unfold Operator.apply
  split
  · exact .ok (.some trivial)
  · exact .ok (.some trivial)
  · exact .ok (.some trivial)
  all_goals split
  -- a comparison yields a truth value, arithmetic a number, and both nothing of nothing
  all_goals first
    | exact .ok .none
    | exact .ok (.some (Json.isScalar_bool _).wellFormed)
    | exact (ensures_arithmetic _ _ _).map fun _ => .some
    | exact (Ensures.any _).map fun _ _ => .some (Json.isScalar_bool _).wellFormed

/-- So does negation. -/
theorem ensures_negated (v : Value) : Ensures (negated v) Value.WellFormed := by
  unfold negated
  split
  · exact .ok .none
  · exact (ensures_numberResult _).map fun _ => .some
  · exact .error _

/-! ## Built-in functions -/

namespace Library

/-- A number is made of a number, a truth value or a text. -/
theorem ensures_toNumber (f : Builtin) (v : Json) : Ensures (toNumber f v) Json.WellFormed := by
  unfold toNumber
  split
  · exact .ok trivial
  · exact .ok trivial
  · split
    · exact ensures_numberResult _
    · exact .error _
  · exact .error _

/-- Texts that are joined are one text. -/
theorem ensures_joined (f : Builtin) (sep : List Char) (v : Json) :
    Ensures (joined f sep v) Json.WellFormed :=
  .step fun _ => .ok trivial

/-- A text with pieces replaced is a text. -/
theorem ensures_replaced (f : Builtin) (text : Json) (pattern replacement limit : Value) :
    Ensures (replaced f text pattern replacement limit) Json.WellFormed := by
  refine .step fun s => .step fun p => ?_
  simp only
  split
  · exact .error _
  · refine .step fun r => .step ?_
    rintro (_ | n) <;> exact .ok trivial

/-- The largest, the smallest and the mean of numbers are numbers. -/
theorem ensures_summary (f : Builtin) (xs : List Binary64) :
    Ensures (summary f xs) Value.WellFormed := by
  unfold summary
  split
  · exact .ok .none
  · exact (ensures_numberResult _).map fun _ => .some

/-- The names of an object are given as texts. -/
theorem wellFormed_namesOf (ms : Members) : Value.WellFormed (namesOf ms) := by
  unfold namesOf
  split
  · exact .none
  · refine .some (wellFormed_array.2 fun v hv => ?_)
    obtain ⟨name, -, rfl⟩ := List.mem_map.1 hv
    trivial

/-- The names of the objects in an array are, too. -/
theorem wellFormed_keysOf (v : Json) : Value.WellFormed (keysOf v) := by
  unfold keysOf
  split
  · exact wellFormed_namesOf _
  · exact wellFormed_namesOf _
  · exact .none

/-- Objects are merged member by member. -/
theorem ensures_merged (f : Builtin) {v : Json} (h : v.WellFormed) :
    Ensures (merged f v) Json.WellFormed := by
  have hitems := wellFormed_itemsOf h
  refine Ensures.bind (P := fun ms => (Json.object ms).WellFormed) ?_ fun _ => .ok
  -- on the items, with the members merged so far as the accumulator
  generalize itemsOf v = items at hitems
  have hempty := Json.WellFormed.empty_object
  generalize ([] : Members) = acc at hempty
  induction items generalizing acc with
  | nil => exact .ok hempty
  | cons item rest ih =>
    obtain ⟨hitem, hrest⟩ := List.forall_mem_cons.1 hitems
    rw [List.foldlM_cons]
    split
    · exact ih hrest _ (hempty.merge hitem)
    · exact .error _

/-- A function that passes on what is undefined keeps to what it does with the rest. -/
theorem ensures_onDefined {v : Value} (hv : Value.WellFormed v)
    {g : Json → Except EvalError Json} (hg : ∀ w, w.WellFormed → Ensures (g w) Json.WellFormed) :
    Ensures (onDefined v g) Value.WellFormed := by
  cases v with
  | none => exact .ok .none
  | some w => exact (hg w hv.of_some).map fun _ => .some

/-- **Built-in functions yield well-formed values from well-formed arguments.** -/
theorem ensures_apply (f : Builtin) (now : String) {args : List Value}
    (hargs : ∀ v ∈ args, Value.WellFormed v) :
    Ensures (apply f now args) Value.WellFormed := by
  have hhead : ∀ {vs : List Value}, (∀ v ∈ vs, Value.WellFormed v) →
      Value.WellFormed (vs.head?.getD none) := by
    intro vs hvs
    cases vs with
    | nil => exact .none
    | cons v vs => exact hvs v List.mem_cons_self
  have hfirst := hhead hargs
  have hsecond := hhead fun v hv => hargs v (List.mem_of_mem_drop (i := 1) hv)
  cases f with
  | string | boolean | not => exact ensures_onDefined hfirst fun _ _ => .ok trivial
  | «exists» | count | now => exact .ok (.some trivial)
  | number => exact ensures_onDefined hfirst fun v _ => ensures_toNumber _ v
  | sum => exact ensures_onDefined hfirst fun v _ => .step fun _ => ensures_numberResult _
  | max | min | average =>
    unfold apply
    simp only
    split
    · exact .ok .none
    · exact .step fun _ => ensures_summary _ _
  | length | uppercase | lowercase | trim =>
    exact ensures_onDefined hfirst fun v _ => .step fun _ => .ok trivial
  | substring =>
    exact ensures_onDefined hfirst fun v _ =>
      .step fun _ => .step fun _ => .step fun _ => .ok trivial
  | join =>
    refine ensures_onDefined hfirst fun v _ => ?_
    simp only
    split
    all_goals exact .step fun _ => ensures_joined _ _ v
  | keys =>
    refine .ok ?_
    generalize args.head?.getD none = v at hfirst
    cases v with
    | none => exact .none
    | some w => exact wellFormed_keysOf w
  | round =>
    exact ensures_onDefined hfirst fun v _ =>
      .step fun _ => .step fun _ => ensures_numberResult _
  | abs | floor | ceil =>
    exact ensures_onDefined hfirst fun v _ => .step fun _ => ensures_numberResult _
  | contains =>
    exact ensures_onDefined hfirst fun v _ => .step fun _ => .step fun _ => .ok trivial
  | split =>
    refine ensures_onDefined hfirst fun v _ => .step fun s => .step fun sep => ?_
    have hpieces : ∀ v ∈ (piecesOf sep s).map ofChars, v.WellFormed := by
      intro v hv
      obtain ⟨cs, -, rfl⟩ := List.mem_map.1 hv
      trivial
    refine .step ?_
    rintro (_ | n)
    · exact .ok (wellFormed_array.2 hpieces)
    · exact .ok (wellFormed_array.2 fun v hv => hpieces v (List.mem_of_mem_take hv))
  | replace => exact ensures_onDefined hfirst fun v _ => ensures_replaced _ v _ _ _
  | merge => exact ensures_onDefined hfirst fun v hv => ensures_merged _ hv
  | append =>
    unfold apply
    simp only
    split
    · exact .ok hsecond
    · exact .ok hfirst
    · rename_i a b ha hb
      rw [ha] at hfirst
      rw [hb] at hsecond
      refine .ok (.some (wellFormed_array.2 (List.forall_mem_append.2 ⟨?_, ?_⟩)))
      · exact wellFormed_itemsOf hfirst.of_some
      · exact wellFormed_itemsOf hsecond.of_some
  | reverse =>
    refine ensures_onDefined hfirst fun v hv => .ok (wellFormed_array.2 fun w hw => ?_)
    exact wellFormed_itemsOf hv w (List.mem_reverse.1 hw)
  | distinct =>
    refine ensures_onDefined hfirst fun v hv => ?_
    split
    · exact .ok (wellFormed_array.2 fun w hw =>
        wellFormed_array.1 hv w ((distinctFrom_sublist [] _).subset hw))
    · exact .ok hv
  | map | filter | reduce => exact .error _

end Library

/-! ## Frames -/

/-- The literals in the body of a function are scalars. -/
def Callable.WellFormed : Callable → Prop
  | .builtin _ => True
  | .lambda _ body _ => body.HasScalarLiterals

/-- What is bound, a value or a function, is well formed. -/
def Binding.WellFormed : Binding → Prop
  | .value v => Value.WellFormed v
  | .function c => c.WellFormed

/-- A function that is used as a value is undefined. -/
theorem Binding.WellFormed.asValue {b : Binding} (h : b.WellFormed) :
    Value.WellFormed b.asValue := by
  cases b with
  | value v => exact h
  | function c => exact .none

/-- Everything bound in the frame is well formed. -/
def Frame.WellFormed (f : Frame) : Prop := ∀ b ∈ f.bindings, b.2.WellFormed

/-- Nothing is bound in an empty frame. -/
theorem Frame.WellFormed.empty : Frame.WellFormed {} := List.forall_mem_nil _

/-- Everything bound in the frames is well formed. -/
def Frames.WellFormed (frames : Frames) : Prop :=
  ∀ (id : FrameId) (f : Frame), frames[id]? = some f → f.WellFormed

namespace Frames.WellFormed

variable {frames : Frames} {f : Frame}

/-- A frame that is added is the only new one. -/
theorem push (h : Frames.WellFormed frames) (hf : f.WellFormed) :
    Frames.WellFormed (frames.push f) := by
  intro id g hg
  rw [Array.getElem?_push] at hg
  split at hg
  · cases hg
    exact hf
  · exact h id g hg

/-- A frame that is changed is the only one changed. -/
theorem modify (h : Frames.WellFormed frames) (id : FrameId) {p : Frame → Frame}
    (hp : ∀ g, g.WellFormed → (p g).WellFormed) : Frames.WellFormed (frames.modify id p) := by
  intro id' g hg
  rw [Array.getElem?_modify] at hg
  split at hg
  · obtain ⟨g', hg', rfl⟩ := Option.map_eq_some_iff.1 hg
    exact hp g' (h id' g' hg')
  · exact h id' g hg

/-- What is found under a name was bound in one of the frames. -/
theorem lookup (h : Frames.WellFormed frames) {scope : Scope} {name : String} {b : Binding}
    (hb : Eval.lookup? frames scope name = some b) : b.WellFormed := by
  obtain ⟨id, -, hid⟩ := List.exists_of_findSome?_eq_some hb
  obtain ⟨g, hg, hlookup⟩ := Option.bind_eq_some_iff.1 hid
  obtain ⟨pre, post, hsplit, -⟩ := List.lookup_eq_some_iff.1 hlookup
  refine h id g hg (name, b) ?_
  rw [hsplit]
  exact List.mem_append_right pre List.mem_cons_self

end Frames.WellFormed

/-! ## Computations that keep frames well formed -/

/-- From well-formed frames the computation comes, if it does not fail, to well-formed frames,
and `P` holds of what it yields. -/
def Eval.Keeps {α : Type} (m : Eval α) (P : α → Prop) : Prop :=
  ∀ frames, Frames.WellFormed frames →
    Ensures (m.run frames) fun r => P r.1 ∧ Frames.WellFormed r.2

namespace Eval.Keeps

variable {α β : Type} {P : α → Prop} {Q : β → Prop} {m : Eval α}

/-- To yield something leaves the frames alone. -/
theorem pure {x : α} (h : P x) : Keeps (Pure.pure x) P :=
  fun _ hframes => .ok ⟨h, hframes⟩

/-- To fail yields nothing. -/
theorem throw (e : EvalError) : Keeps (MonadExcept.throw e : Eval α) P :=
  fun _ _ => .error e

/-- The second computation goes on from the frames that the first has left. -/
theorem bind {f : α → Eval β} (hm : Keeps m P) (hf : ∀ x, P x → Keeps (f x) Q) :
    Keeps (m >>= f) Q := by
  intro frames hframes
  rw [StateT.run_bind]
  exact (hm frames hframes).bind fun r hr => hf r.1 hr.1 r.2 hr.2

/-- What is made of the result leaves the frames alone. -/
theorem map {f : α → β} (hm : Keeps m P) (hf : ∀ x, P x → Q (f x)) : Keeps (f <$> m) Q := by
  rw [map_eq_pure_bind]
  exact hm.bind fun x hx => .pure (hf x hx)

/-- A computation that does not use frames. -/
theorem lift {x : Except EvalError α} (h : Ensures x P) : Keeps (liftM x : Eval α) P := by
  intro frames hframes
  cases x with
  | error e => exact .error e
  | ok v => exact .ok ⟨h v rfl, hframes⟩

end Eval.Keeps

namespace Eval

variable {context : Value} {scope : Scope}

/-- Binding adds to the innermost frame, if there is one. -/
theorem keeps_bind (scope : Scope) (name : String) {b : Binding} (hb : b.WellFormed) :
    Keeps (Eval.bind scope name b) fun _ => True := by
  cases scope with
  | nil => exact .pure trivial
  | cons id scope =>
    intro frames hframes
    refine .ok ⟨trivial, hframes.modify id fun g hg => ?_⟩
    exact List.forall_mem_cons.2 ⟨hb, hg⟩

/-- A body is evaluated in a frame of its own, which is cleared or kept afterwards. -/
theorem keeps_inFrame {clearing : Bool} {f : Frame} (hf : f.WellFormed)
    {body : Scope → Eval Value} (hbody : ∀ inner, Keeps (body inner) Value.WellFormed) :
    Keeps (inFrame clearing f scope body) Value.WellFormed := by
  intro frames hframes
  -- the new frame is the last one, and only it is changed when it is closed
  show Ensures ((body (frames.size :: scope)).run (frames.push f) >>=
    fun r => .ok (r.1, r.2.modify frames.size (Frame.close clearing))) _
  refine (hbody _ _ (hframes.push hf)).bind fun r hr => .ok ⟨hr.1, hr.2.modify _ fun g hg => ?_⟩
  unfold Frame.close
  split
  · exact .empty
  · exact hg

/-- A function is built in, written where it is called, or bound. -/
theorem keeps_callable? {t : Tree} (ht : t.HasScalarLiterals) :
    Keeps (callable? t scope) fun c? => ∀ c ∈ c?, c.WellFormed := by
  have hsome : ∀ {c : Callable}, c.WellFormed → ∀ c' ∈ some c, c'.WellFormed := by
    intro c hc c' hc'
    cases hc'
    exact hc
  have hnone : ∀ c ∈ (none : Option Callable), c.WellFormed := by
    intro c hc
    cases hc
  cases t with
  | builtin f => exact .pure (hsome trivial)
  | lambda params body => exact .pure (hsome (ht.of_mem_parts List.mem_cons_self))
  | var name =>
    intro frames hframes
    have hname : ∀ b, lookup? frames scope name = some b → b.WellFormed :=
      fun b hb => hframes.lookup hb
    simp only [callable?, StateT.run_bind, StateT.run_get, pure_bind]
    generalize lookup? frames scope name = b? at hname ⊢
    split
    · exact .ok ⟨hsome (hname _ rfl), hframes⟩
    · exact .ok ⟨hnone, hframes⟩
  | literal | context | root | field | path | filter | binary | negate | condition | array
  | object | block | bind | call => exact .pure hnone

end Eval

/-- The evaluator yields well-formed values of trees whose literals are scalars. -/
def Evaluator.Keeps (eval : Evaluator) : Prop :=
  ∀ (t : Tree) (context : Value) (scope : Scope), t.HasScalarLiterals →
    Value.WellFormed context → Eval.Keeps (eval t context scope) Value.WellFormed

namespace Eval

variable {eval : Evaluator} (heval : eval.Keeps) {setting : Setting} {context : Value}
  (hcontext : Value.WellFormed context) {scope : Scope}

include heval hcontext

/-! ### Calls -/

/-- Arguments are evaluated one after the other, but for functions. -/
theorem keeps_arguments {ts : List Tree} (hts : ∀ t ∈ ts, t.HasScalarLiterals) :
    Keeps (arguments eval context scope ts) fun bs => ∀ b ∈ bs, b.WellFormed := by
  induction ts with
  | nil => exact .pure (List.forall_mem_nil _)
  | cons t ts ih =>
    obtain ⟨ht, hts⟩ := List.forall_mem_cons.1 hts
    rw [arguments]
    have hrest : ∀ b : Binding, b.WellFormed →
        Keeps (do let bs ← arguments eval context scope ts; return b :: bs)
          fun bs => ∀ b ∈ bs, b.WellFormed :=
      fun b hb => (ih hts).bind fun bs hbs => .pure (List.forall_mem_cons.2 ⟨hb, hbs⟩)
    refine (keeps_callable? ht).bind fun c? hc => ?_
    cases c? with
    | none =>
      have hvalue : Keeps (Binding.value <$> eval t context scope) Binding.WellFormed :=
        (heval t context scope ht hcontext).map fun _ hv => hv
      exact hvalue.bind hrest
    | some c =>
      have hfunction : Binding.WellFormed (.function c) := hc c rfl
      exact (Keeps.pure hfunction).bind hrest

omit heval hcontext in
/-- Parameters are bound to arguments, as far as there are any. -/
theorem wellFormed_parameterFrame (params : List String) {args : List Binding}
    (hargs : ∀ b ∈ args, b.WellFormed) : (parameterFrame params args).WellFormed := by
  intro b hb
  obtain ⟨-, hb⟩ := List.of_mem_zip (List.mem_reverse.1 hb)
  rcases List.mem_append.1 hb with hb | hb
  · exact hargs b.2 hb
  · rw [List.eq_of_mem_replicate hb]
    exact Value.WellFormed.none

/-- A call is one of a built-in function, or evaluates a body in a frame with the arguments. -/
theorem keeps_invoke {c : Callable} (hc : c.WellFormed) {args : List Binding}
    (hargs : ∀ b ∈ args, b.WellFormed) :
    Keeps (invoke setting eval context c args) Value.WellFormed := by
  cases c with
  | builtin f =>
    refine .lift (Library.ensures_apply f setting.now fun v hv => ?_)
    obtain ⟨b, hb, rfl⟩ := List.mem_map.1 hv
    exact (hargs b hb).asValue
  | lambda params body scope =>
    exact keeps_inFrame (wellFormed_parameterFrame params hargs) fun inner =>
      heval body context inner hc hcontext

omit heval hcontext in
/-- A function on items is given the item, its position and all items. -/
theorem wellFormed_itemArguments (c : Callable) {items : List Json} {item : Json}
    (hitems : ∀ v ∈ items, v.WellFormed) (hitem : item.WellFormed) (index : Nat) :
    ∀ b ∈ itemArguments c items item index, b.WellFormed := by
  have hvalue : (Binding.value (some item)).WellFormed := Value.WellFormed.some hitem
  have hposition : (Binding.value (some (.number (.ofNat index)))).WellFormed :=
    Value.WellFormed.some (Json.isScalar_number _).wellFormed
  have hall : (Binding.value (some (.array items))).WellFormed :=
    Value.WellFormed.some (wellFormed_array.2 hitems)
  unfold itemArguments
  simp only
  split_ifs
  · simpa using ⟨hvalue, hposition, hall⟩
  · simpa using ⟨hvalue, hposition⟩
  · simpa using hvalue

end Eval

section Items

open Eval

variable {call : List Binding → Eval Value}
  (hcall : ∀ args, (∀ b ∈ args, b.WellFormed) → Eval.Keeps (call args) Value.WellFormed)
  {items rest : List Json} (hitems : ∀ v ∈ items, v.WellFormed)
  (hrest : ∀ v ∈ rest, v.WellFormed)

include hcall hrest

/-! ### Rows of items -/

include hitems in
/-- Mapping yields what the function yields for the items. -/
theorem Eval.keeps_mapItems (c : Callable) (index : Nat) :
    Keeps (mapItems call c items index rest) fun vs => ∀ v ∈ vs, v.WellFormed := by
  induction rest generalizing index with
  | nil => exact .pure (List.forall_mem_nil _)
  | cons item rest ih =>
    obtain ⟨hitem, hrest⟩ := List.forall_mem_cons.1 hrest
    refine (hcall _ (wellFormed_itemArguments c hitems hitem index)).bind fun v hv => ?_
    refine (ih hrest _).bind fun vs hvs => .pure ?_
    exact List.forall_mem_append.2 ⟨hv.toList, hvs⟩

include hitems in
/-- Filtering yields some of the items. -/
theorem Eval.keeps_filterItems (c : Callable) (index : Nat) :
    Keeps (filterItems call c items index rest) fun vs => ∀ v ∈ vs, v.WellFormed := by
  induction rest generalizing index with
  | nil => exact .pure (List.forall_mem_nil _)
  | cons item rest ih =>
    obtain ⟨hitem, hrest⟩ := List.forall_mem_cons.1 hrest
    refine (hcall _ (wellFormed_itemArguments c hitems hitem index)).bind fun v hv => ?_
    refine (ih hrest _).bind fun vs hvs => .pure ?_
    split
    · exact List.forall_mem_cons.2 ⟨hitem, hvs⟩
    · exact hvs

/-- Folding goes on from what the function yielded for the item before. -/
theorem Eval.keeps_foldItems (index : Nat) {acc : Value} (hacc : Value.WellFormed acc) :
    Keeps (foldItems call index acc rest) Value.WellFormed := by
  induction rest generalizing index acc with
  | nil => exact .pure hacc
  | cons item rest ih =>
    obtain ⟨hitem, hrest⟩ := List.forall_mem_cons.1 hrest
    refine (hcall _ ?_).bind fun v hv => ih hrest _ hv
    have hvalue : (Binding.value (some item)).WellFormed := Value.WellFormed.some hitem
    have hposition : (Binding.value (some (.number (.ofNat index)))).WellFormed :=
      Value.WellFormed.some (Json.isScalar_number _).wellFormed
    have hstart : (Binding.value acc).WellFormed := hacc
    simpa using ⟨hstart, hvalue, hposition⟩

/-- A fold without a start begins with the first item. -/
theorem Eval.keeps_reduceItems {initial : Value} (hinitial : Value.WellFormed initial) :
    Keeps (reduceItems call initial rest) Value.WellFormed := by
  unfold reduceItems
  split
  · exact keeps_foldItems hcall hrest _ hinitial
  · exact .pure .none
  · obtain ⟨hitem, hrest⟩ := List.forall_mem_cons.1 hrest
    exact keeps_foldItems hcall hrest _ (.some hitem)

end Items

namespace Eval

variable {eval : Evaluator} (heval : eval.Keeps) {setting : Setting} {context : Value}
  (hcontext : Value.WellFormed context) {scope : Scope}

include heval

include hcontext in
/-- The functions on functions call the one they are given, on well-formed items. -/
theorem keeps_higherOrder (f : Builtin) {args : List Binding}
    (hargs : ∀ b ∈ args, b.WellFormed) :
    Keeps (higherOrder setting eval context f args) Value.WellFormed := by
  have hvalue : ∀ {bs : List Binding}, (∀ b ∈ bs, b.WellFormed) →
      Value.WellFormed ((bs.head?.map Binding.asValue).getD none) := by
    intro bs hbs
    cases bs with
    | nil => exact .none
    | cons b bs => exact (hbs b List.mem_cons_self).asValue
  have hdrop : ∀ n, ∀ b ∈ args.drop n, b.WellFormed :=
    fun n b hb => hargs b (List.mem_of_mem_drop hb)
  have hinput := hvalue hargs
  have hinitial := hvalue (hdrop 2)
  unfold higherOrder
  simp only
  split
  · rename_i c hc
    have hcallable : c.WellFormed := hdrop 1 (.function c) (List.mem_of_mem_head? hc)
    have hcall : ∀ args, (∀ b ∈ args, b.WellFormed) →
        Keeps (invoke setting eval context c args) Value.WellFormed :=
      fun args hargs => keeps_invoke heval hcontext hcallable hargs
    split
    · exact .pure .none
    · rename_i v hv
      rw [hv] at hinput
      have hitems := wellFormed_itemsOf hinput.of_some
      split
      · exact (keeps_mapItems hcall hitems hitems c 0).map fun _ => .sequence
      · exact (keeps_filterItems hcall hitems hitems c 0).map fun _ => .sequence
      · exact keeps_reduceItems hcall hitems hinitial
  · exact .throw _

include hcontext in
/-- A call is one of a built-in function, or of one that is bound or written. -/
theorem keeps_call {callee : Tree} {args : List Tree} (hcallee : callee.HasScalarLiterals)
    (hargs : ∀ t ∈ args, t.HasScalarLiterals) :
    Keeps (call setting eval context scope callee args) Value.WellFormed := by
  have harguments : Keeps (arguments eval context scope args) fun bs => ∀ b ∈ bs, b.WellFormed :=
    keeps_arguments heval hcontext hargs
  unfold call
  simp only
  split
  · exact harguments.bind fun bs hbs => keeps_higherOrder heval hcontext _ hbs
  · refine (keeps_callable? hcallee).bind fun c? hc => ?_
    cases c? with
    | none => exact .throw _
    | some c => exact harguments.bind fun bs hbs => keeps_invoke heval hcontext (hc c rfl) hbs

/-! ### Paths and predicates -/

omit heval in
/-- A step of a path goes over the items, and spreads what it finds. -/
theorem keeps_stepItems {step : Json → Eval Value}
    (hstep : ∀ v, v.WellFormed → Keeps (step v) Value.WellFormed) {items : List Json}
    (hitems : ∀ v ∈ items, v.WellFormed) :
    Keeps (stepItems step items) fun vs => ∀ v ∈ vs, v.WellFormed := by
  induction items with
  | nil => exact .pure (List.forall_mem_nil _)
  | cons item rest ih =>
    obtain ⟨hitem, hrest⟩ := List.forall_mem_cons.1 hitems
    refine (hstep item hitem).bind fun v hv => (ih hrest).bind fun vs hvs => .pure ?_
    exact List.forall_mem_append.2 ⟨hv.spread, hvs⟩

/-- Each step of a path starts from what the one before has found. -/
theorem keeps_pathFrom {current : Value} (hcurrent : Value.WellFormed current)
    {steps : List Tree} (hsteps : ∀ t ∈ steps, t.HasScalarLiterals) :
    Keeps (pathFrom eval scope current steps) Value.WellFormed := by
  induction steps generalizing current with
  | nil =>
    rw [pathFrom]
    exact .pure hcurrent
  | cons step rest ih =>
    obtain ⟨hstep, hrest⟩ := List.forall_mem_cons.1 hsteps
    have hvalue : ∀ v, v.WellFormed → Keeps (eval step (some v) scope) Value.WellFormed :=
      fun v hv => heval step (some v) scope hstep (.some hv)
    unfold pathFrom
    split
    · exact .pure hcurrent
    · exact .pure .none
    · rename_i items step' rest' heq
      cases heq
      refine (keeps_stepItems hvalue (wellFormed_array.1 hcurrent.of_some)).bind ?_
      exact fun vs hvs => ih (.sequence hvs) hrest
    · rename_i v step' rest' _ heq
      cases heq
      exact (hvalue v hcurrent.of_some).bind fun w hw => ih hw hrest

omit heval in
/-- A predicate selects some of the items. -/
theorem keeps_selected {predicate : Json → Eval Value}
    (hpredicate : ∀ v, v.WellFormed → Keeps (predicate v) Value.WellFormed) (count index : Nat)
    {items : List Json} (hitems : ∀ v ∈ items, v.WellFormed) :
    Keeps (selected predicate count index items) fun vs => ∀ v ∈ vs, v.WellFormed := by
  induction items generalizing index with
  | nil => exact .pure (List.forall_mem_nil _)
  | cons item rest ih =>
    obtain ⟨hitem, hrest⟩ := List.forall_mem_cons.1 hitems
    refine (hpredicate item hitem).bind fun v hv => (ih _ hrest).bind fun vs hvs => .pure ?_
    split
    · exact List.forall_mem_cons.2 ⟨hitem, hvs⟩
    · exact hvs

/-! ### Constructors and blocks -/

section Rows

variable {p : Tree → Eval Value} (hp : ∀ t, t.HasScalarLiterals → Keeps (p t) Value.WellFormed)

include hp

omit heval in
/-- The items of an array are those that are defined. -/
theorem keeps_definedItems {ts : List Tree} (hts : ∀ t ∈ ts, t.HasScalarLiterals) :
    Keeps (definedItems p ts) fun vs => ∀ v ∈ vs, v.WellFormed := by
  induction ts with
  | nil => exact .pure (List.forall_mem_nil _)
  | cons t ts ih =>
    obtain ⟨ht, hts⟩ := List.forall_mem_cons.1 hts
    refine (hp t ht).bind fun v hv => (ih hts).bind fun vs hvs => .pure ?_
    exact List.forall_mem_append.2 ⟨hv.toList, hvs⟩

omit heval in
/-- Members that are constructed are set one after the other. -/
theorem keeps_constructedMembers {acc : Members} (hacc : (Json.object acc).WellFormed)
    {entries : List (Tree × Tree)}
    (hentries : ∀ e ∈ entries, e.1.HasScalarLiterals ∧ e.2.HasScalarLiterals) :
    Keeps (constructedMembers p acc entries) fun ms => (Json.object ms).WellFormed := by
  induction entries generalizing acc with
  | nil => exact .pure hacc
  | cons e entries ih =>
    obtain ⟨⟨hkey, hvalue⟩, hentries⟩ := List.forall_mem_cons.1 hentries
    refine (hp e.1 hkey).bind fun key _ => ?_
    split
    · refine (hp e.2 hvalue).bind fun value hv => ?_
      cases value with
      | none => exact ih hacc hentries
      | some w => exact ih (hacc.set hv.of_some) hentries
    · exact .throw _

omit heval in
/-- A block yields what its last expression yields. -/
theorem keeps_lastValue {last : Value} (hlast : Value.WellFormed last) {ts : List Tree}
    (hts : ∀ t ∈ ts, t.HasScalarLiterals) :
    Keeps (lastValue p last ts) Value.WellFormed := by
  induction ts generalizing last with
  | nil => exact .pure hlast
  | cons t ts ih =>
    obtain ⟨ht, hts⟩ := List.forall_mem_cons.1 hts
    exact (hp t ht).bind fun v hv => ih hv hts

end Rows

end Eval

/-! ## Whole evaluations -/

/-- The literal of a scalar is well formed. -/
theorem wellFormed_of_literal {v : Json} (h : (Tree.literal v).HasScalarLiterals) :
    v.WellFormed := by
  cases v with
  | null | bool | number | string => trivial
  | array | object => exact absurd h.isWritten (by simp [Tree.isWritten])

/-- One node yields well-formed values if the evaluator inside does. -/
theorem keeps_evalNode {eval : Evaluator} (heval : eval.Keeps) {setting : Setting}
    (hinput : setting.input.WellFormed) : Evaluator.Keeps (evalNode setting eval) := by
  intro t context scope ht hcontext
  have hparts : ∀ u ∈ t.parts, ∀ scope, Eval.Keeps (eval u context scope) Value.WellFormed :=
    fun u hu scope => heval u context scope (ht.of_mem_parts hu) hcontext
  cases t with
  | literal v => exact .pure (.some (wellFormed_of_literal ht))
  | context => exact .pure hcontext
  | root => exact .pure (.some hinput)
  | field name =>
    refine .pure ?_
    cases context with
    | none => exact .none
    | some v => exact wellFormed_field name v hcontext.of_some
  | var name =>
    intro frames hframes
    have hname : ∀ b, Eval.lookup? frames scope name = some b → b.WellFormed :=
      fun b hb => hframes.lookup hb
    simp only [evalNode, StateT.run_bind, StateT.run_get, pure_bind]
    generalize Eval.lookup? frames scope name = b? at hname ⊢
    split
    · exact .ok ⟨hname _ rfl, hframes⟩
    · exact .ok ⟨.none, hframes⟩
  | builtin | lambda => exact .pure .none
  | path steps =>
    cases steps with
    | nil => exact .pure .none
    | cons first rest =>
      refine (hparts first List.mem_cons_self scope).bind fun v hv => ?_
      exact Eval.keeps_pathFrom heval hv fun u hu =>
        ht.of_mem_parts (List.mem_cons_of_mem first hu)
  | filter base predicate =>
    refine (hparts base List.mem_cons_self scope).bind fun v hv => ?_
    cases v with
    | none => exact .pure .none
    | some v =>
      have hpredicate : ∀ w, w.WellFormed →
          Eval.Keeps (eval predicate (some w) scope) Value.WellFormed :=
        fun w hw => heval predicate (some w) scope
          (ht.of_mem_parts (List.mem_cons_of_mem base List.mem_cons_self)) (.some hw)
      exact (Eval.keeps_selected hpredicate _ 0 (wellFormed_itemsOf hv.of_some)).map
        fun _ => .sequence
  | binary op l r =>
    have hright := hparts r (List.mem_cons_of_mem l List.mem_cons_self) scope
    have hbool : ∀ b, Value.WellFormed (some (.bool b)) := fun b => .some trivial
    refine (hparts l List.mem_cons_self scope).bind fun a _ => ?_
    split
    · split
      · exact hright.bind fun b _ => .pure (hbool _)
      · exact .pure (hbool _)
    · split
      · exact .pure (hbool _)
      · exact hright.bind fun b _ => .pure (hbool _)
    · exact hright.bind fun b _ => .lift (op.ensures_apply a b)
  | negate v =>
    exact (hparts v List.mem_cons_self scope).bind fun w _ => .lift (ensures_negated w)
  | condition test yes no? =>
    refine (hparts test List.mem_cons_self scope).bind fun v _ => ?_
    split
    · exact hparts yes (List.mem_cons_of_mem test List.mem_cons_self) scope
    · cases no? with
      | none => exact .pure .none
      | some no => exact hparts no (by simp [Tree.parts]) scope
  | array items =>
    refine (Eval.keeps_definedItems (fun u hu => ?_) fun u hu => ht.of_mem_parts hu).map ?_
    · exact heval u context scope hu hcontext
    · exact fun vs hvs => .some (wellFormed_array.2 hvs)
  | object entries =>
    have hentries := Tree.forall_mem_parts_object.1 fun u hu => ht.of_mem_parts hu
    refine (Eval.keeps_constructedMembers (fun u hu => ?_) .empty_object hentries).map ?_
    · exact heval u context scope hu hcontext
    · exact fun ms hms => .some hms
  | block items =>
    refine Eval.keeps_inFrame .empty fun inner => ?_
    exact Eval.keeps_lastValue (fun u hu => heval u context inner hu hcontext) .none
      fun u hu => ht.of_mem_parts hu
  | bind name v =>
    have hv := ht.of_mem_parts (u := v) List.mem_cons_self
    refine (Eval.keeps_callable? hv).bind fun c? hc => ?_
    cases c? with
    | none =>
      refine (heval v context scope hv hcontext).bind fun w hw => ?_
      exact (Eval.keeps_bind scope name (b := .value w) hw).bind fun _ _ => .pure hw
    | some c =>
      refine (Eval.keeps_bind scope name (b := .function c) (hc c rfl)).bind fun _ _ => ?_
      exact .pure .none
  | call callee args position =>
    exact Eval.keeps_call heval hcontext (ht.of_mem_parts List.mem_cons_self)
      fun u hu => ht.of_mem_parts (List.mem_cons_of_mem callee hu)

/-- Hence so does the evaluator, by induction on the levels that it has. -/
theorem keeps_eval {setting : Setting} (hinput : setting.input.WellFormed) (depth : Nat) :
    Evaluator.Keeps (eval setting depth) := by
  induction depth with
  | zero => exact fun t context scope _ _ => .throw _
  | succ depth ih => exact keeps_evalNode ih hinput

/-- **The result of a compiled text on a well-formed document is well formed.** -/
theorem wellFormed_result {source : String} {t : Tree} (ht : compileTree source = .ok t)
    {now : String} {input v : Json} (hinput : input.WellFormed) (h : result now t input = .ok v) :
    v.WellFormed := by
  have hempty : Frames.WellFormed #[] := by
    intro id f hf
    cases hf
  have hevaluator : Evaluator.Keeps (eval ⟨input, now, true⟩ maxDepth) := keeps_eval hinput maxDepth
  have heval := hevaluator t (some input) [0] (hasScalarLiterals_of_compileTree ht) (.some hinput)
    #[{}] (hempty.push .empty)
  have hresult : Ensures (result now t input) Json.WellFormed :=
    (heval.map fun r hr => hr.1).map fun v hv => Value.WellFormed.getD hv trivial
  exact hresult v h

end Reshape.Expression
