/-
# Evaluation

An expression is evaluated on the value at hand, in a scope.  Variables live in
frames, which are kept in a store and can be rebound; a scope is the list of the
frames in sight, the innermost first.  Blocks and function calls open a frame and
close it when they end.  A function value remembers the scope of its definition, not a
copy of it, so that it sees later bindings in those frames and can call itself.

The evaluator recurses on the depth that is left.  Whether frames are emptied when
they are closed is an option, and a frame notes that it was closed, so that one can ask
whether either makes a difference.  One step of the evaluator needs no more than frames and
errors, and is written for any monad that has them, so that one can also ask what it does
where more is kept account of.
-/
import Reshape.Expression.Library

namespace Reshape.Expression

/-! ## Scopes -/

/-- The place of a frame in the store. -/
abbrev FrameId := Nat

/-- The frames in sight, the innermost first. -/
abbrev Scope := List FrameId

/-- A function value. -/
inductive Callable
  | builtin (f : Builtin)
  | lambda (params : List String) (body : Tree) (scope : Scope)

/-- What a variable is bound to. -/
inductive Binding
  | value (v : Value)
  | function (c : Callable)

/-- A frame: its bindings, the latest first, and whether it was closed. -/
structure Frame where
  bindings : List (String × Binding) := []
  closed : Bool := false

/-- The frame closed, and emptied if `clearing` is set. -/
def Frame.close (clearing : Bool) (frame : Frame) : Frame :=
  ⟨if clearing then [] else frame.bindings, true⟩

/-- All frames, those closed included. -/
abbrev Frames := Array Frame

/-- The value a binding contributes where a value is wanted: a function has none. -/
def Binding.asValue : Binding → Value
  | .value v => v
  | .function _ => none

/-- A computation on frames that may fail. -/
abbrev Eval := StateT Frames (Except EvalError)

variable {m : Type → Type} [Monad m] [MonadStateOf Frames m] [MonadExceptOf EvalError m]
  [MonadLiftT (Except EvalError) m]

namespace Eval

/-- The binding of a name in the innermost frame that has one. -/
def lookup? (frames : Frames) (scope : Scope) (name : String) : Option Binding :=
  scope.findSome? fun id => (frames[id]?).bind fun frame => frame.bindings.lookup name

/-- Binds a name in the innermost frame of a scope. -/
def bind (scope : Scope) (name : String) (b : Binding) : m Unit :=
  match scope with
  | [] => pure ()
  | id :: _ => modify fun frames =>
    frames.modify id fun frame => { frame with bindings := (name, b) :: frame.bindings }

/-- Opens a frame inside a scope. -/
def openFrame (frame : Frame) (scope : Scope) : m Scope := do
  let frames ← get
  set (frames.push frame)
  return frames.size :: scope

/-- Closes the innermost frame of a scope, emptying it if `clearing` is set. -/
def closeFrame (clearing : Bool) (scope : Scope) : m Unit :=
  match scope with
  | [] => pure ()
  | id :: _ => modify fun frames => frames.modify id (Frame.close clearing)

/-- Runs a computation in a frame of its own. -/
def inFrame (clearing : Bool) (frame : Frame) (scope : Scope) (body : Scope → m Value) :
    m Value := do
  let inner ← openFrame frame scope
  let v ← body inner
  closeFrame clearing inner
  return v

/-- The function that a tree stands for where a function is wanted. -/
def callable? (t : Tree) (scope : Scope) : m (Option Callable) := do
  match t with
  | .builtin f => return some (.builtin f)
  | .lambda params body => return some (.lambda params body scope)
  | .var name =>
    match lookup? (← get) scope name with
    | some (.function c) => return some c
    | _ => return none
  | _ => return none

end Eval

/-! ## Evaluation of one tree

In what follows `eval` evaluates the trees inside. -/

/-- How to evaluate a tree on the value at hand, in a scope. -/
abbrev EvaluatorIn (m : Type → Type) := Tree → Value → Scope → m Value

/-- An evaluator with frames and errors and nothing more. -/
abbrev Evaluator := EvaluatorIn Eval

/-- What does not change during an evaluation: the input document, the text of the
present time, and whether closed frames are emptied. -/
structure Setting where
  input : Json
  now : String
  clearing : Bool

namespace Eval

/-- The values of the arguments of a call; functions stay functions. -/
def arguments (eval : EvaluatorIn m) (context : Value) (scope : Scope) :
    List Tree → m (List Binding)
  | [] => return []
  | t :: rest => do
    let b ← match ← callable? t scope with
      | some c => pure (Binding.function c)
      | none => Binding.value <$> eval t context scope
    let bs ← arguments eval context scope rest
    return b :: bs

/-- The frame of a function call: every parameter with its argument, a missing argument
being undefined; the last of two equal parameters wins. -/
def parameterFrame : List String → List Binding → Frame
  | params, args =>
    { bindings := (params.zip (args ++ List.replicate params.length (.value none))).reverse }

/-- Calls a function. -/
def invoke (setting : Setting) (eval : EvaluatorIn m) (context : Value) (c : Callable)
    (args : List Binding) : m Value :=
  match c with
  | .builtin f => liftM (Library.apply f setting.now (args.map Binding.asValue))
  | .lambda params body scope =>
    inFrame setting.clearing (parameterFrame params args) scope fun inner =>
      eval body context inner

/-- The arguments with which a function is called on an item of an array: the item, and
for functions with more parameters its position and the array. -/
def itemArguments (c : Callable) (items : List Json) (item : Json) (index : Nat) :
    List Binding :=
  let count := match c with
    | .builtin _ => 1
    | .lambda params _ _ => params.length
  let value := Binding.value (some item)
  let position := Binding.value (some (.number (.ofNat index)))
  let all := Binding.value (some (.array items))
  if 2 < count then [value, position, all]
  else if 1 < count then [value, position]
  else [value]

/-- The defined results of a function on items from position `index` on. -/
def mapItems (call : List Binding → m Value) (c : Callable) (items : List Json) :
    (index : Nat) → List Json → m (List Json)
  | _, [] => return []
  | index, item :: rest => do
    let v ← call (itemArguments c items item index)
    let vs ← mapItems call c items (index + 1) rest
    return v.toList ++ vs

/-- The items from position `index` on for which a function yields a true value. -/
def filterItems (call : List Binding → m Value) (c : Callable) (items : List Json) :
    (index : Nat) → List Json → m (List Json)
  | _, [] => return []
  | index, item :: rest => do
    let v ← call (itemArguments c items item index)
    let vs ← filterItems call c items (index + 1) rest
    return if truthy v then item :: vs else vs

/-- The items from position `index` on folded into `acc`. -/
def foldItems (call : List Binding → m Value) :
    (index : Nat) → (acc : Value) → List Json → m Value
  | _, acc, [] => return acc
  | index, acc, item :: rest => do
    let acc ← call
      [.value acc, .value (some item), .value (some (.number (.ofNat index)))]
    foldItems call (index + 1) acc rest

/-- Folds items from a given start value, or else from the first item. -/
def reduceItems (call : List Binding → m Value) (initial : Value) (items : List Json) :
    m Value :=
  match initial, items with
  | some v, items => foldItems call 0 (some v) items
  | none, [] => return none
  | none, item :: rest => foldItems call 1 (some item) rest

/-- A built-in that takes a function, on arguments already evaluated. -/
def higherOrder (setting : Setting) (eval : EvaluatorIn m) (context : Value) (f : Builtin)
    (args : List Binding) : m Value := do
  let input := (args.head?.map Binding.asValue).getD none
  match (args.drop 1).head? with
  | some (.function c) =>
    let initial := ((args.drop 2).head?.map Binding.asValue).getD none
    let call := invoke setting eval context c
    match input with
    | none => return none
    | some v =>
      let items := itemsOf v
      match f with
      | .map => sequence <$> mapItems call c items 0 items
      | .filter => sequence <$> filterItems call c items 0 items
      | _ => reduceItems call initial items
  | _ => throw (.callbackExpected f)

/-- The value of a call. -/
def call (setting : Setting) (eval : EvaluatorIn m) (context : Value) (scope : Scope)
    (callee : Tree) (args : List Tree) : m Value := do
  let direct? := match callee with
    | .builtin f => if f.isHigherOrder then some f else none
    | _ => none
  match direct? with
  | some f => higherOrder setting eval context f (← arguments eval context scope args)
  | none =>
    match ← callable? callee scope with
    | some c => invoke setting eval context c (← arguments eval context scope args)
    | none => throw .notAFunction

/-- What a step of a path yields on each of the items, in order. -/
def stepItems (step : Json → m Value) : List Json → m (List Json)
  | [] => return []
  | item :: rest => do
    let v ← step item
    let vs ← stepItems step rest
    return spread v ++ vs

/-- The value of the steps of a path after a value: a step is applied to every item of
an array, and what is undefined stays so. -/
def pathFrom (eval : EvaluatorIn m) (scope : Scope) :
    (current : Value) → List Tree → m Value
  | current, [] => return current
  | none, _ :: _ => return none
  | some (.array items), step :: rest => do
    let vs ← stepItems (fun item => eval step (some item) scope) items
    pathFrom eval scope (sequence vs) rest
  | some v, step :: rest => do
    let w ← eval step (some v) scope
    pathFrom eval scope w rest

/-- Whether the value of a predicate selects the item at `index` of `count` items: a
number selects one position, counted from the end if negative. -/
def selects (count index : Nat) : Value → Bool
  | some (.number n) =>
    let wanted := Library.wholeOf n.toBinary64
    let wanted := if wanted < 0 then Binary64.clampInt64 (wanted + count) else wanted
    wanted == index
  | v => truthy v

/-- The items from position `index` on that a predicate selects. -/
def selected (predicate : Json → m Value) (count : Nat) :
    (index : Nat) → List Json → m (List Json)
  | _, [] => return []
  | index, item :: rest => do
    let v ← predicate item
    let vs ← selected predicate count (index + 1) rest
    return if selects count index v then item :: vs else vs

/-- The defined values of a row of trees. -/
def definedItems (eval : Tree → m Value) : List Tree → m (List Json)
  | [] => return []
  | t :: rest => do
    let v ← eval t
    let vs ← definedItems eval rest
    return v.toList ++ vs

/-- The members of an object constructor, set after those in `acc`; undefined values
are left out. -/
def constructedMembers (eval : Tree → m Value) (acc : Members) :
    List (Tree × Tree) → m Members
  | [] => return acc
  | (k, v) :: rest => do
    match ← eval k with
    | some (.string name) =>
      match ← eval v with
      | some w => constructedMembers eval (acc.set name w) rest
      | none => constructedMembers eval acc rest
    | _ => throw .keyNotString

/-- The value of the last of a row of trees. -/
def lastValue (eval : Tree → m Value) : (last : Value) → List Tree → m Value
  | last, [] => return last
  | _, t :: rest => do lastValue eval (← eval t) rest

end Eval

/-- The value of a tree on the value at hand, where `eval` evaluates the trees inside. -/
def evalNode (setting : Setting) (eval : EvaluatorIn m) : EvaluatorIn m :=
    fun t context scope =>
  match t with
  | .literal v => return some v
  | .context => return context
  | .root => return some setting.input
  | .field name => return context.bind (field name)
  | .var name => do
    match Eval.lookup? (← get) scope name with
    | some (.value v) => return v
    | _ => return none
  | .builtin _ | .lambda _ _ => return none
  | .path steps =>
    match steps with
    | [] => return none
    | first :: rest => do Eval.pathFrom eval scope (← eval first context scope) rest
  | .filter base predicate => do
    match ← eval base context scope with
    | none => return none
    | some v =>
      let items := itemsOf v
      sequence <$> Eval.selected (fun item => eval predicate (some item) scope)
        items.length 0 items
  | .binary op l r => do
    let a ← eval l context scope
    match op with
    | .and =>
      if truthy a then return some (.bool (truthy (← eval r context scope)))
      else return some (.bool false)
    | .or =>
      if truthy a then return some (.bool true)
      else return some (.bool (truthy (← eval r context scope)))
    | _ => liftM (op.apply a (← eval r context scope))
  | .negate v => do liftM (negated (← eval v context scope))
  | .condition test yes no? => do
    if truthy (← eval test context scope) then eval yes context scope
    else match no? with
      | some no => eval no context scope
      | none => return none
  | .array items =>
    (fun vs => some (.array vs)) <$> Eval.definedItems (fun t => eval t context scope) items
  | .object entries =>
    (fun ms => some (.object ms)) <$>
      Eval.constructedMembers (fun t => eval t context scope) [] entries
  | .block items =>
    Eval.inFrame setting.clearing {} scope fun inner =>
      Eval.lastValue (fun t => eval t context inner) none items
  | .bind name v => do
    match ← Eval.callable? v scope with
    | some c =>
      Eval.bind scope name (.function c)
      return none
    | none =>
      let w ← eval v context scope
      Eval.bind scope name (.value w)
      return w
  | .call callee args _ => Eval.call setting eval context scope callee args

/-- The value of a tree with `depth` levels of evaluation left. -/
def eval (setting : Setting) : (depth : Nat) → Evaluator
  | 0, _, _, _ => throw .nestedTooDeep
  | depth + 1, t, context, scope => evalNode setting (eval setting depth) t context scope

/-- The value of an expression on its input document, with `depth` levels. -/
def evaluate (setting : Setting) (depth : Nat) (t : Tree) : Except EvalError Value :=
  ((eval setting depth t (some setting.input) [0]).run #[{}]).map Prod.fst

end Reshape.Expression
