/-
# Values of expressions

An expression yields a document or nothing: a missing member is not an error, it is
undefined and stays so along a path.  This module holds what the language says about
documents as such: truth, equality, order, text, members and the results of
arithmetic.
-/
import Reshape.Expression.Tree
import Reshape.Json.Writer

namespace Reshape.Expression

/-- The value of an expression: a document, or none where it is undefined. -/
abbrev Value := Option Json

/-! ## Errors -/

/-- The deepest nesting of an evaluation, function calls included. -/
def maxDepth : Nat := 160

/-- Why an evaluation fails. -/
inductive EvalError
  | nestedTooDeep
  | negatedNonNumber
  | keyNotString
  | notAFunction
  | callbackExpected (f : Builtin)
  | callbackOnly (f : Builtin)
  | numberOutOfRange
  | operandsNotNumbers (left right : String)
  | numbersNotComparable
  | notComparable (left right : String)
  | argumentExpected (f : Builtin) (what : String)
  | notANumeral (s : String)
  | emptyPattern
  deriving DecidableEq

/-- The error in words. -/
def EvalError.message : EvalError → String
  | nestedTooDeep => s!"evaluation nested deeper than {maxDepth} levels"
  | negatedNonNumber => "cannot negate a non-numeric value"
  | keyNotString => "object key must evaluate to a string"
  | notAFunction => "attempted to invoke a non-function"
  | callbackExpected f => s!"${f.name} expects a function as its second argument"
  | callbackOnly f => s!"${f.name} must be called directly with a function argument"
  | numberOutOfRange => "number out of range (division by zero or overflow)"
  | operandsNotNumbers l r => s!"arithmetic operands must be numbers, got {l} and {r}"
  | numbersNotComparable => "numbers are not comparable"
  | notComparable l r => s!"cannot compare {l} with {r}"
  | argumentExpected f what => s!"${f.name} expects {what}"
  | notANumeral s => s!"unable to cast string \"{s}\" to a number"
  | emptyPattern => "$replace pattern must not be empty"

/-! ## Numbers -/

/-- The double that a document is, if it is a number. -/
def number? : Json → Option Binary64
  | .number n => some n.toBinary64
  | _ => none

/-- The document for the result of arithmetic. -/
def numberResult (x : Binary64) : Except EvalError Json :=
  match Number.ofResult? x with
  | some n => .ok (.number n)
  | none => .error .numberOutOfRange

/-! ## Truth -/

mutual

/-- Whether a document counts as true. -/
def truthyJson : Json → Bool
  | .null => false
  | .bool b => b
  | .number n =>
    match n.toBinary64 with
    | .finite x => !x.isZero
    | _ => true
  | .string s => !s.isEmpty
  | .array items => truthyAny items
  | .object members => !members.isEmpty

/-- Whether one of the items counts as true. -/
def truthyAny : List Json → Bool
  | [] => false
  | v :: rest => truthyJson v || truthyAny rest

end

/-- Whether a value counts as true; what is undefined does not. -/
def truthy : Value → Bool
  | none => false
  | some v => truthyJson v

/-! ## Equality and order -/

/-- Whether two numbers are the same double. -/
def sameNumber (x y : Number) : Bool :=
  Binary64.order? x.toBinary64 y.toBinary64 == some .eq

mutual

/-- Whether two documents are equal: numbers as doubles, members in any order. -/
def same : Json → Json → Bool
  | .null, .null => true
  | .bool a, .bool b => a == b
  | .number x, .number y => sameNumber x y
  | .string s, .string t => s == t
  | .array xs, .array ys => sameItems xs ys
  | .object ms, .object ns => ms.length == ns.length && sameMembers ms ns
  | _, _ => false

/-- Whether two lists have equal items in order. -/
def sameItems : List Json → List Json → Bool
  | [], [] => true
  | x :: xs, y :: ys => same x y && sameItems xs ys
  | _, _ => false

/-- Whether every member of the first list has an equal one in the second. -/
def sameMembers : List (String × Json) → Members → Bool
  | [], _ => true
  | (k, v) :: rest, ns =>
    (match Members.get? k ns with
      | some w => same v w
      | none => false) && sameMembers rest ns

end

/-- The order of two documents: numbers among themselves, and strings. -/
def order (a b : Json) : Except EvalError Ordering :=
  match a, b with
  | .number x, .number y =>
    match Binary64.order? x.toBinary64 y.toBinary64 with
    | some o => .ok o
    | none => .error .numbersNotComparable
  | .string s, .string t => .ok (compare s t)
  | _, _ => .error (.notComparable a.kind b.kind)

/-! ## Sequences and members -/

/-- A result sequence as a value: nothing is undefined, and one item stands for itself. -/
def sequence : List Json → Value
  | [] => none
  | [v] => some v
  | vs => some (.array vs)

/-- The items a value contributes to a sequence: an array gives its items. -/
def spread : Value → List Json
  | none => []
  | some (.array items) => items
  | some v => [v]

/-- The items of a document: those of an array, else the document alone. -/
def itemsOf : Json → List Json
  | .array items => items
  | v => [v]

mutual

/-- The member of a document with a name; from an array, those of its items. -/
def field (name : String) : Json → Value
  | .object members => Members.get? name members
  | .array items => sequence (fieldItems name items)
  | _ => none

/-- What the members with a name of the items contribute. -/
def fieldItems (name : String) : List Json → List Json
  | [] => []
  | v :: rest => spread (field name v) ++ fieldItems name rest

end

/-! ## Text -/

/-- A document as text: a string as it is, anything else as JSON. -/
def textOf : Json → String
  | .string s => s
  | v => v.text

/-- A value as text; what is undefined has none. -/
def textOfValue : Value → String
  | none => ""
  | some v => textOf v

/-! ## Operators -/

/-- Whether an order satisfies a comparison operator. -/
def Operator.holds (op : Operator) (o : Ordering) : Bool :=
  match op with
  | .less => o == .lt
  | .lessEqual => o != .gt
  | .greater => o == .gt
  | _ => o != .lt

/-- The arithmetic of an operator. -/
def Operator.compute (op : Operator) (x y : Binary64) : Binary64 :=
  match op with
  | .add => x.add y
  | .subtract => x.sub y
  | .multiply => x.mul y
  | .divide => x.div y
  | _ => x.rem y

/-- The result of arithmetic on two documents. -/
def arithmetic (op : Operator) (a b : Json) : Except EvalError Json :=
  match number? a, number? b with
  | some x, some y => numberResult (op.compute x y)
  | _, _ => .error (.operandsNotNumbers a.kind b.kind)

/-- The result of an operator on two values, where `and` and `or` are those of their
truth. -/
def Operator.apply (op : Operator) (l r : Value) : Except EvalError Value :=
  match op with
  | .and => .ok (some (.bool (truthy l && truthy r)))
  | .or => .ok (some (.bool (truthy l || truthy r)))
  | .concat => .ok (some (.string (textOfValue l ++ textOfValue r)))
  | .equal | .notEqual =>
    match l, r with
    | some a, some b => .ok (some (.bool (same a b == (op == .equal))))
    | _, _ => .ok (some (.bool false))
  | .less | .lessEqual | .greater | .greaterEqual =>
    match l, r with
    | some a, some b => (order a b).map fun o => some (.bool (op.holds o))
    | _, _ => .ok (some (.bool false))
  | _ =>
    match l, r with
    | some a, some b => (arithmetic op a b).map some
    | _, _ => .ok none

/-- The opposite of a value. -/
def negated : Value → Except EvalError Value
  | none => .ok none
  | some (.number n) => (numberResult n.toBinary64.neg).map some
  | some _ => .error .negatedNonNumber

end Reshape.Expression
