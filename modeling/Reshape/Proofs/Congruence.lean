/-
# Relations that the constructs keep

The constructs of the language are written for any monad with frames and errors, and two
evaluations, in two monads and of two trees, can be followed side by side.  A relation between
their computations is a *congruence* if it is kept by what the constructs are made of:
returning, going on, failing, looking at the frames, binding a name and working in a frame of
its own.  Then it is kept by every construct: evaluators are related on two trees of the same
construct (`Tree.Like`) once they are related on their parts (`rel_evalNode`).

A congruence says which scopes belong together, and which trees may be the bodies of function
values.  It may depend on a world, which tells how the frames of the two evaluations correspond.
Where names may be bound, more can be asked of scopes than elsewhere: the parts of a tree that
are evaluated in the scope of the tree itself (`Tree.inner`) are those that can bind there, and
a block and a function call have a frame for their own bindings.
-/
import Mathlib.Tactic
import Reshape.Expression.Evaluation
import Reshape.Proofs.Flat
import Reshape.Proofs.Subtrees

namespace Reshape.Expression

/-! ## Function values and bindings -/

/-- The same function value in scopes that are related, with bodies that are. -/
inductive Callable.Alike (sees : Scope → Scope → Prop) (bodies : Tree → Tree → Prop) :
    Callable → Callable → Prop
  | builtin (f : Builtin) : Alike sees bodies (.builtin f) (.builtin f)
  | lambda {params : List String} {body body' : Tree} {s s' : Scope} (hbody : bodies body body')
      (hscope : sees s s') : Alike sees bodies (.lambda params body s) (.lambda params body' s')

/-- The same value, or function values that are alike. -/
inductive Binding.Alike (sees : Scope → Scope → Prop) (bodies : Tree → Tree → Prop) :
    Binding → Binding → Prop
  | value (v : Value) : Alike sees bodies (.value v) (.value v)
  | function {c c' : Callable} (h : Callable.Alike sees bodies c c') :
      Alike sees bodies (.function c) (.function c')

theorem Callable.Alike.mono {sees sees' : Scope → Scope → Prop} {bodies : Tree → Tree → Prop}
    {c c' : Callable} (h : Callable.Alike sees bodies c c')
    (hsees : ∀ {s s'}, sees s s' → sees' s s') : Callable.Alike sees' bodies c c' := by
  cases h with
  | builtin f => exact .builtin f
  | lambda hbody hscope => exact .lambda hbody (hsees hscope)

namespace Binding

variable {sees sees' : Scope → Scope → Prop} {bodies : Tree → Tree → Prop} {b b' : Binding}

theorem Alike.mono (h : Binding.Alike sees bodies b b')
    (hsees : ∀ {s s'}, sees s s' → sees' s s') : Binding.Alike sees' bodies b b' := by
  cases h with
  | value v => exact .value v
  | function h => exact .function (h.mono hsees)

theorem Alike.asValue_eq (h : Binding.Alike sees bodies b b') : b.asValue = b'.asValue := by
  cases h <;> rfl

/-- Where the same names are bound to related values, a name is bound in both rows or in
neither. -/
theorem rel_lookup {R : Binding → Binding → Prop} {bs bs' : List (String × Binding)}
    (h : List.Forall₂ (fun x y => x.1 = y.1 ∧ R x.2 y.2) bs bs') (name : String) :
    Option.Rel R (bs.lookup name) (bs'.lookup name) := by
  induction h with
  | nil => exact .none
  | @cons x y _ _ hxy _ ih =>
    obtain ⟨n, b⟩ := x
    obtain ⟨n', b'⟩ := y
    obtain ⟨rfl, hb⟩ := hxy
    rw [List.lookup_cons, List.lookup_cons]
    cases name == n with
    | true => exact .some hb
    | false => exact ih

end Binding

/-- What a name is bound to is found in the innermost frames, or else behind them. -/
theorem Eval.rel_lookup?_cons {R : Binding → Binding → Prop} {a b : Frames} {i j : FrameId}
    {f g : Frame} {s s' : Scope} {name : String} (hf : a[i]? = some f) (hg : b[j]? = some g)
    (hname : Option.Rel R (f.bindings.lookup name) (g.bindings.lookup name))
    (hrest : Option.Rel R (lookup? a s name) (lookup? b s' name)) :
    Option.Rel R (lookup? a (i :: s) name) (lookup? b (j :: s') name) := by
  rw [lookup?, lookup?, List.findSome?_cons, List.findSome?_cons, hf, hg, Option.bind_some,
    Option.bind_some]
  generalize f.bindings.lookup name = x at hname ⊢
  generalize g.bindings.lookup name = y at hname ⊢
  cases hname with
  | none => exact hrest
  | some h => exact .some h

/-- Function values are alike if they are the same. -/
theorem Callable.alike_eq_iff {c c' : Callable} : Callable.Alike Eq Eq c c' ↔ c = c' := by
  constructor
  · rintro (f | ⟨rfl, rfl⟩) <;> rfl
  · rintro rfl
    cases c with
    | builtin f => exact .builtin f
    | lambda params body scope => exact .lambda rfl rfl

theorem Binding.alike_eq_iff {b b' : Binding} : Binding.Alike Eq Eq b b' ↔ b = b' := by
  constructor
  · rintro (v | h)
    · rfl
    · rw [Callable.alike_eq_iff.1 h]
  · rintro rfl
    cases b with
    | value v => exact .value v
    | function c => exact .function (Callable.alike_eq_iff.2 rfl)

/-- Names are bound alike if they are bound to the same. -/
theorem Binding.forall₂_alike_eq {bs bs' : List (String × Binding)}
    (h : List.Forall₂ (fun x y => x.1 = y.1 ∧ Binding.Alike Eq Eq x.2 y.2) bs bs') : bs = bs' := by
  rw [← List.forall₂_eq_eq_eq]
  exact h.imp fun x y hxy => Prod.ext hxy.1 (alike_eq_iff.1 hxy.2)

theorem Eval.lookup?_alike_eq (frames : Frames) (scope : Scope) (name : String) :
    Option.Rel (Binding.Alike Eq Eq) (lookup? frames scope name) (lookup? frames scope name) := by
  cases lookup? frames scope name with
  | none => exact .none
  | some b => exact .some (Binding.alike_eq_iff.2 rfl)

/-! ## Trees of one construct -/

namespace Tree

/-- The parts of a tree that are evaluated in the scope of the tree. -/
def inner : Tree → List Tree
  | .block _ | .lambda _ _ => []
  | t => t.parts

theorem mem_parts_of_mem_inner {t u : Tree} (h : u ∈ t.inner) : u ∈ t.parts := by
  cases t with
  | block | lambda => cases h
  | literal | context | root | field | var | builtin | path | filter | binary | negate
  | condition | array | object | bind | call => exact h

/-- Whether a tree may stand for a function where one is wanted. -/
def isFunction : Tree → Bool
  | .builtin _ | .var _ | .lambda _ _ => true
  | _ => false

/-- Two trees that stand for the same function, or for none. -/
inductive SameFunction (bodies : Tree → Tree → Prop) : Tree → Tree → Prop
  | builtin (f : Builtin) : SameFunction bodies (.builtin f) (.builtin f)
  | var (name : String) : SameFunction bodies (.var name) (.var name)
  | lambda (params : List String) {body body' : Tree} (h : bodies body body') :
      SameFunction bodies (.lambda params body) (.lambda params body')
  | none {t t' : Tree} (h : t.isFunction = false) (h' : t'.isFunction = false) :
      SameFunction bodies t t'

theorem SameFunction.refl {bodies : Tree → Tree → Prop} {t : Tree}
    (h : ∀ {params body}, t = .lambda params body → bodies body body) :
    SameFunction bodies t t := by
  cases t with
  | builtin f => exact .builtin f
  | var name => exact .var name
  | lambda params body => exact .lambda params (h rfl)
  | literal | context | root | field | path | filter | binary | negate | condition | array
  | object | block | bind | call => exact .none rfl rfl

/-- Two members of an object constructor whose names and whose values are related. -/
inductive LikeEntry (P : Tree → Tree → Prop) : Tree × Tree → Tree × Tree → Prop
  | mk {key key' value value' : Tree} (hkey : P key key') (hvalue : P value value') :
      LikeEntry P (key, value) (key', value')

/-- Two trees of the same construct.  Their parts in the scope of the tree are related by `P`,
those in frames of their own by `Q`, and the bodies of functions they are made with by `B`; a
name is bound only if `binds` is set. -/
inductive Like (binds : Bool) (P Q B : Tree → Tree → Prop) : Tree → Tree → Prop
  | literal (v : Json) : Like binds P Q B (.literal v) (.literal v)
  | context : Like binds P Q B .context .context
  | root : Like binds P Q B .root .root
  | field (name : String) : Like binds P Q B (.field name) (.field name)
  | var (name : String) : Like binds P Q B (.var name) (.var name)
  | builtin (f : Builtin) : Like binds P Q B (.builtin f) (.builtin f)
  | path {steps steps' : List Tree} (h : List.Forall₂ P steps steps') :
      Like binds P Q B (.path steps) (.path steps')
  | filter {base base' predicate predicate' : Tree} (hbase : P base base')
      (hpredicate : P predicate predicate') :
      Like binds P Q B (.filter base predicate) (.filter base' predicate')
  | binary (op : Operator) {l l' r r' : Tree} (hl : P l l') (hr : P r r') :
      Like binds P Q B (.binary op l r) (.binary op l' r')
  | negate {v v' : Tree} (h : P v v') : Like binds P Q B (.negate v) (.negate v')
  | condition {test test' yes yes' : Tree} {no? no?' : Option Tree} (htest : P test test')
      (hyes : P yes yes') (hno : Option.Rel P no? no?') :
      Like binds P Q B (.condition test yes no?) (.condition test' yes' no?')
  | array {items items' : List Tree} (h : List.Forall₂ P items items') :
      Like binds P Q B (.array items) (.array items')
  | object {entries entries' : List (Tree × Tree)}
      (h : List.Forall₂ (LikeEntry P) entries entries') :
      Like binds P Q B (.object entries) (.object entries')
  | block {items items' : List Tree} (h : List.Forall₂ Q items items') :
      Like binds P Q B (.block items) (.block items')
  | bind (hbinds : binds = true) (name : String) {v v' : Tree} (h : P v v')
      (hfunction : v.SameFunction B v') :
      Like binds P Q B (.bind name v) (.bind name v')
  | lambda (params : List String) {body body' : Tree} (h : Q body body') :
      Like binds P Q B (.lambda params body) (.lambda params body')
  | call {callee callee' : Tree} {args args' : List Tree} (hcallee : callee.SameFunction B callee')
      (hargs : List.Forall₂ P args args') (hfunctions : List.Forall₂ (SameFunction B) args args')
      (position : Nat) :
      Like binds P Q B (.call callee args position) (.call callee' args' position)

/-- A tree is like itself if its parts are related to themselves. -/
theorem Like.refl {binds : Bool} {P Q B : Tree → Tree → Prop} {t : Tree}
    (hbind : t.isBind = true → binds = true) (hinner : ∀ u ∈ t.inner, P u u)
    (hparts : ∀ u ∈ t.parts, Q u u) (hbodies : ∀ u ∈ t.parts, u.SameFunction B u) :
    Like binds P Q B t t := by
  have hrow : ∀ {ts : List Tree}, (∀ u ∈ ts, P u u) → List.Forall₂ P ts ts :=
    List.forall₂_same.2
  cases t with
  | literal v => exact .literal v
  | context => exact .context
  | root => exact .root
  | field name => exact .field name
  | var name => exact .var name
  | builtin f => exact .builtin f
  | path steps => exact .path (hrow hinner)
  | filter base predicate =>
    exact .filter (hinner base (by simp [inner, parts])) (hinner predicate (by simp [inner, parts]))
  | binary op l r =>
    exact .binary op (hinner l (by simp [inner, parts])) (hinner r (by simp [inner, parts]))
  | negate v => exact .negate (hinner v (by simp [inner, parts]))
  | condition test yes no? =>
    refine .condition (hinner test (by simp [inner, parts]))
      (hinner yes (by simp [inner, parts])) ?_
    cases no? with
    | none => exact .none
    | some no => exact .some (hinner no (by simp [inner, parts]))
  | array items => exact .array (hrow hinner)
  | object entries =>
    have hentries := forall_mem_parts_object.1 hinner
    exact .object (List.forall₂_same.2 fun e he => .mk (hentries e he).1 (hentries e he).2)
  | block items => exact .block (List.forall₂_same.2 hparts)
  | bind name v =>
    have hv := List.mem_singleton_self v
    exact .bind (hbind rfl) name (hinner v hv) (hbodies v hv)
  | lambda params body => exact .lambda params (hparts body (List.mem_singleton_self body))
  | call callee args position =>
    obtain ⟨hcallee, hfunctions⟩ := List.forall_mem_cons.1 hbodies
    have hargs := (List.forall_mem_cons.1 hinner).2
    exact .call hcallee (hrow hargs) (List.forall₂_same.2 hfunctions) position

end Tree

/-- A tree that is no function stands for none. -/
theorem Eval.callable?_of_isFunction_eq_false {m : Type → Type} [Monad m] [MonadStateOf Frames m]
    {t : Tree} (h : t.isFunction = false) (scope : Scope) :
    (callable? t scope : m (Option Callable)) = pure none := by
  cases t with
  | builtin | var | lambda => cases h
  | literal | context | root | field | path | filter | binary | negate | condition | array
  | object | block | bind | call => rfl

/-- What is no function cannot be called. -/
theorem Eval.call_of_isFunction_eq_false {m : Type → Type} [Monad m] [LawfulMonad m]
    [MonadStateOf Frames m] [MonadExceptOf EvalError m] [MonadLiftT (Except EvalError) m] {t : Tree}
    (h : t.isFunction = false) (setting : Setting) (eval : EvaluatorIn m) (context : Value)
    (scope : Scope) (args : List Tree) :
    call setting eval context scope t args = throw .notAFunction := by
  have hcallable := callable?_of_isFunction_eq_false (m := m) h scope
  cases t with
  | builtin | var | lambda => cases h
  | literal | context | root | field | path | filter | binary | negate | condition | array
  | object | block | bind | call =>
    unfold call
    simp only
    rw [hcallable, pure_bind]

/-! ## Congruences -/

section Monads

variable {m m' : Type → Type} [Monad m] [MonadStateOf Frames m] [MonadExceptOf EvalError m]
  [MonadLiftT (Except EvalError) m] [Monad m'] [MonadStateOf Frames m']
  [MonadExceptOf EvalError m'] [MonadLiftT (Except EvalError) m']

variable (m m') in
/-- A relation between computations, in a world, that the constructs keep. -/
structure Congruence where
  World : Type
  /-- The scopes of function values that are alike. -/
  sees : World → Scope → Scope → Prop
  /-- The bodies of function values that are alike. -/
  bodies : Tree → Tree → Prop
  /-- The scopes of two trees that are evaluated.  If `binds` is set, names can be bound in
  them. -/
  scopes : (binds : Bool) → World → Scope → Scope → Prop
  /-- The frames behind two evaluations. -/
  frames : World → Frames → Frames → Prop
  /-- Whether closed frames are emptied. -/
  clears : Bool → Bool → Prop
  /-- The computations, with results that `R` relates. -/
  rel : {α β : Type} → World → (R : α → β → Prop) → m α → m' β → Prop
  sees_of_scopes {binds : Bool} {w : World} {s s' : Scope} : scopes binds w s s' → sees w s s'
  lookup {w : World} {s s' : Scope} {a b : Frames} : frames w a b → sees w s s' → ∀ name,
    Option.Rel (Binding.Alike (sees w) bodies) (Eval.lookup? a s name) (Eval.lookup? b s' name)
  pure {α β : Type} {w : World} {R : α → β → Prop} {x : α} {y : β} :
    R x y → rel w R (Pure.pure x) (Pure.pure y)
  bind {α β γ δ : Type} {w : World} {R : α → β → Prop} {S : γ → δ → Prop} {c : m α} {c' : m' β}
    {f : α → m γ} {f' : β → m' δ} :
    rel w R c c' → (∀ x y, R x y → rel w S (f x) (f' y)) → rel w S (c >>= f) (c' >>= f')
  throw {α β : Type} {w : World} {R : α → β → Prop} {e : EvalError} : e ≠ .nestedTooDeep →
    rel w R (MonadExcept.throw e) (MonadExcept.throw e)
  lift {α : Type} {w : World} {x : Except EvalError α} : Flat x →
    rel w Eq (liftM x : m α) (liftM x)
  get {w : World} : rel w (frames w) (MonadState.get : m Frames) MonadState.get
  note {w : World} {s s' : Scope} {v v' : Binding} (name : String) : scopes true w s s' →
    Binding.Alike (sees w) bodies v v' →
      rel w Eq (Eval.bind s name v : m Unit) (Eval.bind s' name v')
  inFrame {w : World} {s s' : Scope} {bs bs' : List (String × Binding)}
    {clearing clearing' : Bool} {body : Scope → m Value} {body' : Scope → m' Value} :
    clears clearing clearing' → sees w s s' →
    List.Forall₂ (fun x y => x.1 = y.1 ∧ Binding.Alike (sees w) bodies x.2 y.2) bs bs' →
    (∀ w' i j, scopes true w' (i :: s) (j :: s') →
      rel w' Eq (body (i :: s)) (body' (j :: s'))) →
    rel w Eq (Eval.inFrame clearing { bindings := bs } s body)
      (Eval.inFrame clearing' { bindings := bs' } s' body')

namespace Congruence

variable (k : Congruence m m') {binds : Bool} {w : k.World} {s s' : Scope} {input : Json}
  {now : String} {clearing clearing' : Bool} {eval : EvaluatorIn m} {eval' : EvaluatorIn m'}

/-- Bindings that are alike in a world. -/
abbrev Bindings (w : k.World) : Binding → Binding → Prop := Binding.Alike (k.sees w) k.bodies

/-- Function values that are alike in a world. -/
abbrev Callables (w : k.World) : Callable → Callable → Prop := Callable.Alike (k.sees w) k.bodies

/-- Where the first computations come to the same value, so do they to begin with. -/
theorem bind_eq {α γ δ : Type} {S : γ → δ → Prop} {c : m α} {c' : m' α} {f : α → m γ}
    {f' : α → m' δ} (hc : k.rel w Eq c c') (hf : ∀ x, k.rel w S (f x) (f' x)) :
    k.rel w S (c >>= f) (c' >>= f') :=
  k.bind hc fun x _ hxy => hxy ▸ hf x

/-- Where the first computations come to optional values, both come to one or neither does. -/
theorem bind_option {α β γ δ : Type} {R : α → β → Prop} {S : γ → δ → Prop} {c : m (Option α)}
    {c' : m' (Option β)} {f : Option α → m γ} {f' : Option β → m' δ}
    (hc : k.rel w (Option.Rel R) c c') (hsome : ∀ x y, R x y → k.rel w S (f (some x)) (f' (some y)))
    (hnone : k.rel w S (f none) (f' none)) : k.rel w S (c >>= f) (c' >>= f') := by
  refine k.bind hc ?_
  rintro _ _ (hxy | _)
  · exact hsome _ _ hxy
  · exact hnone

theorem map [LawfulMonad m] [LawfulMonad m'] {α β γ δ : Type} {R : α → β → Prop}
    {S : γ → δ → Prop} {c : m α} {c' : m' β} {f : α → γ} {f' : β → δ} (hc : k.rel w R c c')
    (hf : ∀ x y, R x y → S (f x) (f' y)) : k.rel w S (f <$> c) (f' <$> c') := by
  rw [map_eq_pure_bind, map_eq_pure_bind]
  exact k.bind hc fun x y hxy => k.pure (hf x y hxy)

/-- The evaluators are related on two trees in two scopes, whatever the value at hand is. -/
def Relates (w : k.World) (s s' : Scope) (eval : EvaluatorIn m) (eval' : EvaluatorIn m')
    (t t' : Tree) : Prop :=
  ∀ context, k.rel w Eq (eval t context s) (eval' t' context s')

/-- The evaluators are related on the bodies of functions, in frames of their own. -/
def RelatesBodies (eval : EvaluatorIn m) (eval' : EvaluatorIn m') : Prop :=
  ∀ {t t'}, k.bodies t t' → ∀ {w s s'}, k.scopes true w s s' → k.Relates w s s' eval eval' t t'

/-! ## Calls -/

theorem rel_callable? (hs : k.sees w s s') {t t' : Tree} (h : t.SameFunction k.bodies t') :
    k.rel w (Option.Rel (k.Callables w)) (Eval.callable? t s) (Eval.callable? t' s') := by
  cases h with
  | builtin f => exact k.pure (.some (.builtin f))
  | lambda params h => exact k.pure (.some (.lambda h hs))
  | var name =>
    refine k.bind k.get fun a b hab => ?_
    have hname := k.lookup hab hs name
    generalize Eval.lookup? a s name = x at hname ⊢
    generalize Eval.lookup? b s' name = y at hname ⊢
    obtain ((_ | hc) | _) := hname
    · exact k.pure .none
    · exact k.pure (.some hc)
    · exact k.pure .none
  | none h h' =>
    rw [Eval.callable?_of_isFunction_eq_false h, Eval.callable?_of_isFunction_eq_false h']
    exact k.pure .none

theorem map_asValue_eq {args args' : List Binding} (h : List.Forall₂ (k.Bindings w) args args') :
    args.map Binding.asValue = args'.map Binding.asValue := by
  induction h with
  | nil => rfl
  | cons hb _ ih => rw [List.map_cons, List.map_cons, hb.asValue_eq, ih]

theorem alike_parameters (params : List String) {args args' : List Binding}
    (h : List.Forall₂ (k.Bindings w) args args') :
    List.Forall₂ (fun x y => x.1 = y.1 ∧ k.Bindings w x.2 y.2)
      (Eval.parameterFrame params args).bindings (Eval.parameterFrame params args').bindings := by
  refine List.forall₂_reverse_iff.2 ?_
  have hall : List.Forall₂ (k.Bindings w)
      (args ++ List.replicate params.length (.value none))
      (args' ++ List.replicate params.length (.value none)) :=
    List.rel_append h (List.forall₂_same.2 fun b hb => (List.eq_of_mem_replicate hb) ▸ .value none)
  -- with the missing arguments added, parameter by parameter
  generalize args ++ List.replicate params.length (.value none) = bs at hall
  generalize args' ++ List.replicate params.length (.value none) = bs' at hall
  induction params generalizing bs bs' with
  | nil => exact .nil
  | cons p params ih =>
    cases hall with
    | nil => exact .nil
    | cons hb hbs => exact .cons ⟨rfl, hb⟩ (ih _ _ hbs)

theorem rel_invoke (hclears : k.clears clearing clearing')
    (hbodies : k.RelatesBodies eval eval') (context : Value) {c c' : Callable}
    (hc : k.Callables w c c') {args args' : List Binding}
    (hargs : List.Forall₂ (k.Bindings w) args args') :
    k.rel w Eq (Eval.invoke ⟨input, now, clearing⟩ eval context c args)
      (Eval.invoke ⟨input, now, clearing'⟩ eval' context c' args') := by
  cases hc with
  | builtin f =>
    rw [Eval.invoke, Eval.invoke, k.map_asValue_eq hargs]
    exact k.lift (Library.flat_apply f now _)
  | lambda hbody hscope =>
    exact k.inFrame hclears hscope (k.alike_parameters _ hargs)
      fun _ i j hs => hbodies hbody hs context

/-! ## Built-ins that take a function -/

section Items

variable {call : List Binding → m Value} {call' : List Binding → m' Value} {c c' : Callable}

theorem alike_itemArguments (hc : k.Callables w c c') (items : List Json) (item : Json)
    (index : Nat) :
    List.Forall₂ (k.Bindings w) (Eval.itemArguments c items item index)
      (Eval.itemArguments c' items item index) := by
  have heq : Eval.itemArguments c items item index = Eval.itemArguments c' items item index := by
    cases hc <;> rfl
  rw [heq, List.forall₂_same]
  intro b hb
  obtain ⟨v, rfl⟩ : ∃ v, b = .value v := by
    unfold Eval.itemArguments at hb
    simp only at hb
    split_ifs at hb <;> simp only [List.mem_cons, List.not_mem_nil, or_false] at hb <;>
      rcases hb with rfl | rfl | rfl <;> exact ⟨_, rfl⟩
  exact .value v

variable (hcall : ∀ {args args' : List Binding},
  List.Forall₂ (k.Bindings w) args args' → k.rel w Eq (call args) (call' args'))

include hcall

theorem rel_mapItems (hc : k.Callables w c c') (items : List Json) (index : Nat)
    (rest : List Json) :
    k.rel w Eq (Eval.mapItems call c items index rest)
      (Eval.mapItems call' c' items index rest) := by
  induction rest generalizing index with
  | nil => exact k.pure rfl
  | cons item rest ih =>
    refine k.bind_eq (hcall (k.alike_itemArguments hc items item index)) fun v => ?_
    exact k.bind_eq (ih (index + 1)) fun vs => k.pure rfl

theorem rel_filterItems (hc : k.Callables w c c') (items : List Json) (index : Nat)
    (rest : List Json) :
    k.rel w Eq (Eval.filterItems call c items index rest)
      (Eval.filterItems call' c' items index rest) := by
  induction rest generalizing index with
  | nil => exact k.pure rfl
  | cons item rest ih =>
    refine k.bind_eq (hcall (k.alike_itemArguments hc items item index)) fun v => ?_
    exact k.bind_eq (ih (index + 1)) fun vs => k.pure rfl

theorem rel_foldItems (index : Nat) (acc : Value) (rest : List Json) :
    k.rel w Eq (Eval.foldItems call index acc rest) (Eval.foldItems call' index acc rest) := by
  induction rest generalizing index acc with
  | nil => exact k.pure rfl
  | cons item rest ih =>
    refine k.bind_eq (hcall ?_) fun v => ih (index + 1) v
    exact .cons (.value _) (.cons (.value _) (.cons (.value _) .nil))

theorem rel_reduceItems (initial : Value) (items : List Json) :
    k.rel w Eq (Eval.reduceItems call initial items) (Eval.reduceItems call' initial items) := by
  cases initial with
  | some v => exact k.rel_foldItems hcall 0 (some v) items
  | none =>
    cases items with
    | nil => exact k.pure rfl
    | cons item rest => exact k.rel_foldItems hcall 1 (some item) rest

end Items

/-- What stands at a place of one list of arguments stands there in the other. -/
theorem alike_drop_head? {args args' : List Binding}
    (h : List.Forall₂ (k.Bindings w) args args') (n : Nat) :
    Option.Rel (k.Bindings w) (args.drop n).head? (args'.drop n).head? := by
  have hdrop := List.forall₂_drop n h
  generalize args.drop n = bs at hdrop
  generalize args'.drop n = bs' at hdrop
  cases hdrop with
  | nil => exact .none
  | cons hb _ => exact .some hb

theorem value_of_alike {b? b?' : Option Binding} (h : Option.Rel (k.Bindings w) b? b?') :
    (b?.map Binding.asValue).getD none = (b?'.map Binding.asValue).getD none := by
  cases h with
  | none => rfl
  | some hb => exact hb.asValue_eq

variable [LawfulMonad m] [LawfulMonad m']

theorem rel_higherOrder (hclears : k.clears clearing clearing')
    (hbodies : k.RelatesBodies eval eval') (context : Value) (f : Builtin)
    {args args' : List Binding} (hargs : List.Forall₂ (k.Bindings w) args args') :
    k.rel w Eq (Eval.higherOrder ⟨input, now, clearing⟩ eval context f args)
      (Eval.higherOrder ⟨input, now, clearing'⟩ eval' context f args') := by
  have hinput := k.value_of_alike (k.alike_drop_head? hargs 0)
  have hinitial := k.value_of_alike (k.alike_drop_head? hargs 2)
  rw [List.drop_zero, List.drop_zero] at hinput
  have hsecond := k.alike_drop_head? hargs 1
  unfold Eval.higherOrder
  rw [hinput, hinitial]
  generalize (args.drop 1).head? = second at hsecond
  generalize (args'.drop 1).head? = second' at hsecond
  cases hsecond with
  | none => exact k.throw (by simp)
  | @some b b' hb =>
    cases hb with
    | value v => exact k.throw (by simp)
    | @function c c' hc =>
      have hcall : ∀ {args args' : List Binding}, List.Forall₂ (k.Bindings w) args args' →
          k.rel w Eq (Eval.invoke ⟨input, now, clearing⟩ eval context c args)
            (Eval.invoke ⟨input, now, clearing'⟩ eval' context c' args') :=
        fun hargs => k.rel_invoke hclears hbodies context hc hargs
      cases (args'.head?.map Binding.asValue).getD none with
      | none => exact k.pure rfl
      | some v =>
        cases f with
        | map => exact k.map (k.rel_mapItems hcall hc _ 0 _) fun _ _ h => congrArg sequence h
        | filter => exact k.map (k.rel_filterItems hcall hc _ 0 _) fun _ _ h => congrArg sequence h
        | _ => exact k.rel_reduceItems hcall _ _

theorem rel_arguments (context : Value) (hs : k.sees w s s') {ts ts' : List Tree}
    (hts : List.Forall₂ (k.Relates w s s' eval eval') ts ts')
    (hfunctions : List.Forall₂ (Tree.SameFunction k.bodies) ts ts') :
    k.rel w (List.Forall₂ (k.Bindings w)) (Eval.arguments eval context s ts)
      (Eval.arguments eval' context s' ts') := by
  induction hts with
  | nil => exact k.pure .nil
  | @cons t t' ts ts' ht _ ih =>
    obtain ⟨hfunction, hfunctions⟩ := List.forall₂_cons.1 hfunctions
    have ih := ih hfunctions
    refine k.bind_option (k.rel_callable? hs hfunction) (fun _ _ hc => ?_) ?_
    · refine k.bind (k.pure (Binding.Alike.function hc)) fun _ _ hb => ?_
      exact k.bind ih fun _ _ hbs => k.pure (.cons hb hbs)
    · have hbinding : k.rel w (k.Bindings w) (Binding.value <$> eval t context s)
          (Binding.value <$> eval' t' context s') := by
        refine k.map (ht context) ?_
        rintro v _ rfl
        exact .value v
      exact k.bind hbinding fun _ _ hb => k.bind ih fun _ _ hbs => k.pure (.cons hb hbs)

theorem rel_call (hclears : k.clears clearing clearing')
    (hbodies : k.RelatesBodies eval eval') (context : Value) (hs : k.sees w s s')
    {callee callee' : Tree} (hcallee : callee.SameFunction k.bodies callee')
    {args args' : List Tree} (hargs : List.Forall₂ (k.Relates w s s' eval eval') args args')
    (hfunctions : List.Forall₂ (Tree.SameFunction k.bodies) args args') :
    k.rel w Eq (Eval.call ⟨input, now, clearing⟩ eval context s callee args)
      (Eval.call ⟨input, now, clearing'⟩ eval' context s' callee' args') := by
  have harguments := k.rel_arguments context hs hargs hfunctions
  have hsome : ∀ c c', k.Callables w c c' → k.rel w Eq
      (do Eval.invoke ⟨input, now, clearing⟩ eval context c (← Eval.arguments eval context s args))
      (do Eval.invoke ⟨input, now, clearing'⟩ eval' context c'
            (← Eval.arguments eval' context s' args')) :=
    fun c c' hc => k.bind harguments fun _ _ h => k.rel_invoke hclears hbodies context hc h
  have hnone : k.rel w Eq (MonadExcept.throw EvalError.notAFunction : m Value)
      (MonadExcept.throw EvalError.notAFunction) := k.throw (by simp)
  cases hcallee with
  | builtin f =>
    unfold Eval.call
    simp only
    split
    · exact k.bind harguments fun _ _ h => k.rel_higherOrder hclears hbodies context _ h
    · exact k.bind_option (k.rel_callable? hs (.builtin f)) hsome hnone
  | var name => exact k.bind_option (k.rel_callable? hs (.var name)) hsome hnone
  | lambda params h => exact k.bind_option (k.rel_callable? hs (.lambda params h)) hsome hnone
  | none h h' =>
    rw [Eval.call_of_isFunction_eq_false h, Eval.call_of_isFunction_eq_false h']
    exact k.throw (by simp)

/-! ## Rows of trees and of items -/

section Rows

omit [LawfulMonad m] [LawfulMonad m']

variable {step : Json → m Value} {step' : Json → m' Value}

theorem rel_stepItems (hstep : ∀ item, k.rel w Eq (step item) (step' item)) (items : List Json) :
    k.rel w Eq (Eval.stepItems step items) (Eval.stepItems step' items) := by
  induction items with
  | nil => exact k.pure rfl
  | cons item rest ih =>
    exact k.bind_eq (hstep item) fun v => k.bind_eq ih fun vs => k.pure rfl

theorem rel_selected (hstep : ∀ item, k.rel w Eq (step item) (step' item)) (count index : Nat)
    (items : List Json) :
    k.rel w Eq (Eval.selected step count index items)
      (Eval.selected step' count index items) := by
  induction items generalizing index with
  | nil => exact k.pure rfl
  | cons item rest ih =>
    exact k.bind_eq (hstep item) fun v => k.bind_eq (ih (index + 1)) fun vs => k.pure rfl

theorem rel_pathFrom {steps steps' : List Tree}
    (hsteps : List.Forall₂ (k.Relates w s s' eval eval') steps steps') (current : Value) :
    k.rel w Eq (Eval.pathFrom eval s current steps) (Eval.pathFrom eval' s' current steps') := by
  induction hsteps generalizing current with
  | nil =>
    rw [Eval.pathFrom, Eval.pathFrom]
    exact k.pure rfl
  | @cons step step' rest rest' hstep _ ih =>
    have hone : ∀ v, k.rel w Eq (do Eval.pathFrom eval s (← eval step (some v) s) rest)
        (do Eval.pathFrom eval' s' (← eval' step' (some v) s') rest') :=
      fun v => k.bind_eq (hstep (some v)) fun x => ih x
    rcases current with _ | (_ | _ | _ | _ | items | _)
    · exact k.pure rfl
    · exact hone _
    · exact hone _
    · exact hone _
    · exact hone _
    · exact k.bind_eq (k.rel_stepItems (fun item => hstep (some item)) items)
        fun vs => ih (sequence vs)
    · exact hone _

variable {row : Tree → m Value} {row' : Tree → m' Value}

theorem rel_definedItems {ts ts' : List Tree}
    (hrow : List.Forall₂ (fun t t' => k.rel w Eq (row t) (row' t')) ts ts') :
    k.rel w Eq (Eval.definedItems row ts) (Eval.definedItems row' ts') := by
  induction hrow with
  | nil => exact k.pure rfl
  | cons ht _ ih => exact k.bind_eq ht fun v => k.bind_eq ih fun vs => k.pure rfl

theorem rel_lastValue {ts ts' : List Tree}
    (hrow : List.Forall₂ (fun t t' => k.rel w Eq (row t) (row' t')) ts ts') (last : Value) :
    k.rel w Eq (Eval.lastValue row last ts) (Eval.lastValue row' last ts') := by
  induction hrow generalizing last with
  | nil => exact k.pure rfl
  | cons ht _ ih => exact k.bind_eq ht fun v => ih v

theorem rel_constructedMembers {entries entries' : List (Tree × Tree)}
    (hrow : List.Forall₂ (Tree.LikeEntry fun t t' => k.rel w Eq (row t) (row' t'))
      entries entries') (acc : Members) :
    k.rel w Eq (Eval.constructedMembers row acc entries)
      (Eval.constructedMembers row' acc entries') := by
  induction hrow generalizing acc with
  | nil => exact k.pure rfl
  | cons he _ ih =>
    obtain ⟨hkey, hvalue⟩ := he
    refine k.bind_eq hkey fun x => ?_
    rcases x with _ | (_ | _ | _ | name | _ | _)
    · exact k.throw (by simp)
    · exact k.throw (by simp)
    · exact k.throw (by simp)
    · exact k.throw (by simp)
    · refine k.bind_eq hvalue fun y => ?_
      cases y with
      | none => exact ih acc
      | some v => exact ih _
    · exact k.throw (by simp)
    · exact k.throw (by simp)

end Rows

/-! ## One level of evaluation -/

/-- **Evaluators that are related on the parts of two trees of one construct are related on
the trees.** -/
theorem rel_evalNode (hclears : k.clears clearing clearing')
    (hbodies : k.RelatesBodies eval eval') (hs : k.scopes binds w s s')
    {Q : Tree → Tree → Prop}
    (hQ : ∀ {w s s' u u'}, k.scopes true w s s' → Q u u' → k.Relates w s s' eval eval' u u')
    {t t' : Tree} (h : t.Like binds (k.Relates w s s' eval eval') Q k.bodies t') :
    k.Relates w s s' (evalNode ⟨input, now, clearing⟩ eval)
      (evalNode ⟨input, now, clearing'⟩ eval') t t' := by
  intro context
  have hsees := k.sees_of_scopes hs
  cases h with
  | literal | context | root | field | builtin | lambda => exact k.pure rfl
  | var name =>
    refine k.bind k.get fun a b hab => ?_
    have hname := k.lookup hab hsees name
    generalize Eval.lookup? a s name = x at hname ⊢
    generalize Eval.lookup? b s' name = y at hname ⊢
    obtain ((_ | _) | _) := hname <;> exact k.pure rfl
  | path hsteps =>
    cases hsteps with
    | nil => exact k.pure rfl
    | cons hfirst hrest =>
      refine k.bind_eq (hfirst context) fun v => ?_
      exact k.rel_pathFrom hrest v
  | filter hbase hpredicate =>
    refine k.bind_eq (hbase context) fun v => ?_
    cases v with
    | none => exact k.pure rfl
    | some v =>
      refine k.map (k.rel_selected (fun item => hpredicate (some item)) _ 0 _) ?_
      exact fun _ _ h => congrArg sequence h
  | @binary op l l' r r' hl hr =>
    -- whether `and` and `or` come to the second operand depends on the value of the first
    refine k.bind_eq (hl context) fun x => ?_
    have htruth : k.rel w Eq (do return some (.bool (truthy (← eval r context s))) : m Value)
        (do return some (.bool (truthy (← eval' r' context s')))) :=
      k.bind_eq (hr context) fun y => k.pure rfl
    cases op with
    | and =>
      cases truthy x with
      | true => exact htruth
      | false => exact k.pure rfl
    | or =>
      cases truthy x with
      | true => exact k.pure rfl
      | false => exact htruth
    | add | subtract | multiply | divide | remainder | concat | equal | notEqual | less
    | lessEqual | greater | greaterEqual =>
      exact k.bind_eq (hr context) fun y => k.lift (Operator.flat_apply _ x y)
  | negate h => exact k.bind_eq (h context) fun v => k.lift (flat_negated v)
  | condition htest hyes hno =>
    refine k.bind_eq (htest context) fun v => ?_
    cases truthy v with
    | true => exact hyes context
    | false =>
      cases hno with
      | none => exact k.pure rfl
      | some hno => exact hno context
  | array h =>
    refine k.map (k.rel_definedItems (h.imp fun _ _ h => h context)) ?_
    rintro vs _ rfl
    rfl
  | object h =>
    refine k.map (k.rel_constructedMembers (h.imp ?_) []) ?_
    · rintro _ _ ⟨hkey, hvalue⟩
      exact .mk (hkey context) (hvalue context)
    · rintro ms _ rfl
      rfl
  | block h =>
    -- in the new frames names can be bound, whatever holds of the scopes of the blocks
    refine k.inFrame hclears hsees .nil fun w' i j hs' => ?_
    exact k.rel_lastValue (h.imp fun _ _ h => hQ hs' h context) none
  | bind hbinds name hvalue hfunction =>
    obtain rfl := hbinds
    refine k.bind_option (k.rel_callable? hsees hfunction) (fun _ _ hc => ?_) ?_
    · exact k.bind_eq (k.note name hs (.function hc)) fun _ => k.pure rfl
    · refine k.bind_eq (hvalue context) fun v => ?_
      exact k.bind_eq (k.note name hs (.value v)) fun _ => k.pure rfl
  | call hcallee hargs hfunctions position =>
    exact k.rel_call hclears hbodies context hsees hcallee hargs hfunctions

/-- Where function values have the same bodies, evaluators that are related on all trees in
scopes where names can be bound are related on a tree in others if they are on its inner parts,
and if it binds no name itself. -/
theorem rel_evalNode_same (hclears : k.clears clearing clearing')
    (hsame : ∀ {t t'}, k.bodies t t' ↔ t = t')
    (hall : ∀ {w s s'}, k.scopes true w s s' → ∀ u, k.Relates w s s' eval eval' u u)
    (hs : k.scopes binds w s s') {t : Tree} (hbind : t.isBind = true → binds = true)
    (hinner : ∀ u ∈ t.inner, k.Relates w s s' eval eval' u u) :
    k.Relates w s s' (evalNode ⟨input, now, clearing⟩ eval)
      (evalNode ⟨input, now, clearing'⟩ eval') t t := by
  have hbody : ∀ t, k.bodies t t := fun t => hsame.2 rfl
  refine k.rel_evalNode (Q := Eq) hclears ?_ hs ?_
    (.refl hbind hinner (fun u _ => rfl) fun u _ => .refl fun _ => hbody _)
  · intro u u' hbody w s s' hs
    obtain rfl := hsame.1 hbody
    exact hall hs u
  · rintro w s s' u _ hs rfl
    exact hall hs u

end Congruence

end Monads

end Reshape.Expression
