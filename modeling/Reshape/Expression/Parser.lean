/-
# Parsing

Operators bind with different powers: an expression read with power `p` takes every
operator to its right that binds tighter than `p`.  Nesting is limited.  An expression
uses up one level, and so does every operator of a chain except the dot, whose steps
lie side by side in one path.

The parser recurses on the levels that are left.  `below n` parses with any number of
levels up to `n`; the parsers of lists, blocks and operator chains take the parser for
the expressions inside them as an argument and repeat it, once per token at most.
-/
import Reshape.Expression.Tree

namespace Reshape.Expression

/-! ## Binding powers -/

/-- How tightly a token binds the expression to its left, zero if it is no operator. -/
def Token.power : Token → Nat
  | .symbol s =>
    match s with
    | .openBracket | .openParen => 80
    | .dot => 75
    | .star | .slash | .percent => 60
    | .plus | .minus | .ampersand => 50
    | .equal | .notEqual | .less | .lessEqual | .greater | .greaterEqual => 40
    | .chain => 40
    | .question => 20
    | .bind => 10
    | _ => 0
  | .name s => if s == "and" then 30 else if s == "or" then 25 else 0
  | _ => 0

/-- The power with which the operand of a minus sign is read. -/
def negationPower : Nat := 70

/-- The power with which the step behind a dot is read. -/
def stepPower : Nat := 75

/-- The power with which the function of a chain is read. -/
def chainPower : Nat := 40

/-- The power with which a bound value is read, so that bindings nest to the right. -/
def bindPower : Nat := 9

/-- The operator between two operands that a token stands for. -/
def Token.operator? : Token → Option Operator
  | .symbol .plus => some .add
  | .symbol .minus => some .subtract
  | .symbol .star => some .multiply
  | .symbol .slash => some .divide
  | .symbol .percent => some .remainder
  | .symbol .ampersand => some .concat
  | .symbol .equal => some .equal
  | .symbol .notEqual => some .notEqual
  | .symbol .less => some .less
  | .symbol .lessEqual => some .lessEqual
  | .symbol .greater => some .greater
  | .symbol .greaterEqual => some .greaterEqual
  | .name s => if s == "and" then some .and else if s == "or" then some .or else none
  | _ => none

/-! ## The state of the parser -/

/-- The token at hand, the tokens after it, and the variables bound so far. -/
structure ParseState where
  here : Located
  later : List Located
  bound : List String

/-- A parser that may fail with a fault. -/
abbrev Parser := StateT ParseState (Except Fault)

namespace Parser

/-- Fails at the token at hand. -/
def failHere {α : Type} (cause : Token → Cause) : Parser α := do
  let s ← get
  throw ⟨cause s.here.token, s.here.position⟩

/-- Takes the token at hand; the end mark stays. -/
def take : Parser Located := do
  let s ← get
  match s.later with
  | [] => return s.here
  | t :: later =>
    set { s with here := t, later := later }
    return s.here

/-- Whether the token at hand is the symbol `o`. -/
def at? (o : Symbol) : Parser Bool := do
  return (← get).here.token == .symbol o

/-- Takes the symbol `o`. -/
def expect (o : Symbol) : Parser Unit := do
  if ← at? o then
    let _ ← take
  else failHere (.expected o)

/-- Takes the symbol `o` if it is at hand, and tells whether it was. -/
def accept (o : Symbol) : Parser Bool := do
  if ← at? o then
    let _ ← take
    return true
  else return false

/-- Notes that a variable is bound. -/
def noteBound (name : String) : Parser Unit :=
  modify fun s => { s with bound := name :: s.bound }

/-- The number of tokens left. -/
def left : Parser Nat := do return (← get).later.length + 1

/-! ## Lists -/

/-- Items separated by commas up to the symbol `close`, after those in `acc`. -/
def itemsFrom {α : Type} (item : Parser α) (close : Symbol) :
    (steps : Nat) → (acc : List α) → Parser (List α)
  | 0, _ => failHere .unexpected
  | steps + 1, acc => do
    let v ← item
    if ← accept .comma then itemsFrom item close steps (v :: acc)
    else
      expect close
      return (v :: acc).reverse

/-- A possibly empty list of items up to the symbol `close`. -/
def items {α : Type} (item : Parser α) (close : Symbol) : Parser (List α) := do
  if ← accept close then return []
  itemsFrom item close (← left) []

/-- A member of an object constructor. -/
def entry (expr : Nat → Parser Tree) : Parser (Tree × Tree) := do
  let key ← expr 0
  expect .colon
  let value ← expr 0
  return (key, value)

/-- The expressions of a block up to its closing parenthesis, after those in `acc`. -/
def blockFrom (expr : Nat → Parser Tree) :
    (steps : Nat) → (acc : List Tree) → Parser (List Tree)
  | 0, _ => failHere .unexpected
  | steps + 1, acc => do
    if ← at? .closeParen then return acc.reverse
    let v ← expr 0
    if ← accept .semicolon then blockFrom expr steps (v :: acc)
    else return (v :: acc).reverse

/-- A parenthesised group.  One expression alone stands for itself, unless it binds a
variable, which needs the scope of the block. -/
def block (expr : Nat → Parser Tree) : Parser Tree := do
  let items ← blockFrom expr ((← left) + 1) []
  expect .closeParen
  match items with
  | [v] => return if v.isBind then .block [v] else v
  | _ => return .block items

/-! ## Functions and variables -/

/-- A parameter of a function. -/
def parameter : Parser String := do
  let t ← take
  match t.token with
  | .var name =>
    if name == "" || name == "$" then throw ⟨.parameterExpected t.token, t.position⟩
    noteBound name
    return name
  | other => throw ⟨.parameterExpected other, t.position⟩

/-- A function whose first word was taken. -/
def lambda (expr : Nat → Parser Tree) : Parser Tree := do
  expect .openParen
  let params ← items parameter .closeParen
  expect .openBrace
  let body ← expr 0
  expect .closeBrace
  return .lambda params body

/-- What a named variable stands for: a variable bound before, else a built-in. -/
def named (name : String) (position : Nat) : Parser Tree := do
  if (← get).bound.contains name then return .var name
  match Builtin.ofName? name with
  | some f => return .builtin f
  | none =>
    if ← at? .openParen then throw ⟨.unknownFunction name, position⟩
    throw ⟨.unboundVariable name, position⟩

/-- A named variable that was taken, with its arguments if it is called.  A variable
that is about to be bound needs no binding before. -/
def variableUse (expr : Nat → Parser Tree) (name : String) (position : Nat) :
    Parser Tree := do
  if ← at? .bind then
    noteBound name
    return .var name
  let callee ← named name position
  if ← accept .openParen then
    let args ← items (expr 0) .closeParen
    return .call callee args position
  return callee

/-! ## Operands and operators -/

/-- The value of a number literal: whole numbers below 2⁵³ have the integer form, and a
literal beyond the range of doubles is null. -/
def numberLiteral (x : Binary64) : Json :=
  match Number.ofResult? x with
  | some n => .number n
  | none => .null

/-- What a name stands for where an operand is expected. -/
def nameOperand (name : String) : Tree :=
  if name == "true" then .literal (.bool true)
  else if name == "false" then .literal (.bool false)
  else if name == "null" then .literal .null
  else .field name

/-- An operand. -/
def operand (expr : Nat → Parser Tree) : Parser Tree := do
  let t ← take
  match t.token with
  | .number x => return .literal (numberLiteral x)
  | .string s => return .literal (.string s)
  | .name name =>
    if name == "function" then
      if ← at? .openParen then return ← lambda expr
    return nameOperand name
  | .var name =>
    if name == "" then return .context
    if name == "$" then return .root
    variableUse expr name t.position
  | .symbol .minus => return .negate (← expr negationPower)
  | .symbol .openParen => block expr
  | .symbol .openBracket => return .array (← items (expr 0) .closeBracket)
  | .symbol .openBrace => return .object (← items (entry expr) .closeBrace)
  | other => throw ⟨.unexpected other, t.position⟩

/-- A path with one more step. -/
def addStep (left step : Tree) : Tree :=
  match left with
  | .path steps => .path (steps ++ [step])
  | _ => .path [left, step]

/-- The call that a chain stands for: the left side becomes the first argument. -/
def chained (left right : Tree) (position : Nat) : Except Fault Tree :=
  match right with
  | .call callee args at_ => .ok (.call callee (left :: args) at_)
  | .builtin _ | .var _ | .lambda _ _ => .ok (.call right [left] position)
  | _ => .error ⟨.chainTarget, position⟩

/-- The operator at hand applied to the operand before it. -/
def operation (expr : Nat → Parser Tree) (left : Tree) : Parser Tree := do
  let t ← take
  match t.token with
  | .symbol .dot => return addStep left (← expr stepPower)
  | .symbol .openBracket =>
    if ← at? .closeBracket then failHere fun _ => .emptyPredicate
    let predicate ← expr 0
    expect .closeBracket
    return .filter left predicate
  | .symbol .question =>
    let yes ← expr 0
    if ← accept .colon then
      return .condition left yes (some (← expr 0))
    return .condition left yes none
  | .symbol .bind =>
    match left with
    | .var name => return .bind name (← expr bindPower)
    | _ => throw ⟨.bindTarget, t.position⟩
  | .symbol .chain => chained left (← expr chainPower) t.position
  | .symbol .openParen => throw ⟨.unnamedCall, t.position⟩
  | other =>
    match other.operator? with
    | some op => return .binary op left (← expr other.power)
    | none => throw ⟨.unexpected other, t.position⟩

/-- Applies the operators at hand that bind tighter than `power` to `left`, with
`levels` levels left.  `below` parses the expressions inside. -/
def operationsFrom (below : Nat → Nat → Parser Tree) (power : Nat) :
    (steps : Nat) → (levels : Nat) → (left : Tree) → Parser Tree
  | 0, _, left => return left
  | steps + 1, levels, left => do
    if power < (← get).here.token.power then
      if ← at? .dot then
        let left ← operation (below levels) left
        operationsFrom below power steps levels left
      else
        match levels with
        | 0 => failHere fun _ => .nestedTooDeep
        | levels + 1 =>
          let left ← operation (below levels) left
          operationsFrom below power steps levels left
    else return left

/-- Parses an expression with up to `n` levels; `below n levels power` has `levels` of
them. -/
def below : (n : Nat) → (levels : Nat) → (power : Nat) → Parser Tree
  | 0, _, _ => failHere fun _ => .nestedTooDeep
  | n + 1, levels, power =>
    if levels ≤ n then below n levels power
    else do
      let first ← operand (below n n)
      operationsFrom (below n) power (← left) n first

/-- Parses an expression with `levels` levels. -/
def expression (levels power : Nat) : Parser Tree := below levels levels power

/-- Parses the tokens up to the end mark. -/
def whole : Parser Tree := do
  let tree ← expression maxNesting 0
  if (← get).here.token != .done then failHere .unexpected
  return tree

end Parser

/-- The tree of a row of tokens, arities not yet checked. -/
def parseTokens : List Located → Except Fault Tree
  | [] => .error ⟨.unexpected .done, 0⟩
  | t :: later => (Parser.whole.run ⟨t, later, []⟩).map Prod.fst

end Reshape.Expression
