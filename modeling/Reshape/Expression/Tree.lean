/-
# Expression trees

The tree that a text is parsed into.  A step of a path, a predicate, an argument and
so on are trees themselves; calls keep the offset at which they were written, for the
fault of a wrong number of arguments.
-/
import Reshape.Expression.Builtin
import Reshape.Expression.Token
import Reshape.Json.Basic

namespace Reshape.Expression

/-- An operator between two operands. -/
inductive Operator
  | add | subtract | multiply | divide | remainder | concat
  | equal | notEqual | less | lessEqual | greater | greaterEqual
  | and | or
  deriving DecidableEq, Repr

/-- An expression. -/
inductive Tree
  /-- A literal value. -/
  | literal (v : Json)
  /-- The value at hand. -/
  | context
  /-- The whole input document. -/
  | root
  /-- The member of the value at hand with a name. -/
  | field (name : String)
  /-- A bound variable. -/
  | var (name : String)
  /-- A built-in function that is not called here. -/
  | builtin (f : Builtin)
  /-- Steps, each applied to what the one before it yields. -/
  | path (steps : List Tree)
  /-- The items of a value that satisfy a predicate. -/
  | filter (base predicate : Tree)
  | binary (op : Operator) (left right : Tree)
  | negate (operand : Tree)
  | condition (test yes : Tree) (no? : Option Tree)
  | array (items : List Tree)
  | object (entries : List (Tree × Tree))
  /-- Expressions evaluated in a scope of their own; the value is that of the last. -/
  | block (items : List Tree)
  /-- Binds a variable in the scope at hand. -/
  | bind (name : String) (value : Tree)
  | lambda (params : List String) (body : Tree)
  | call (callee : Tree) (args : List Tree) (position : Nat)

namespace Tree

instance : Inhabited Tree := ⟨.context⟩

/-- Whether a tree binds a variable at its root. -/
def isBind : Tree → Bool
  | .bind _ _ => true
  | _ => false

end Tree

end Reshape.Expression
