/-
# Compiled expressions

An expression is compiled once and evaluated on many documents.
-/
import Reshape.Expression.Lexer
import Reshape.Expression.Parser
import Reshape.Expression.Arity
import Reshape.Expression.Evaluation

namespace Reshape.Expression

/-- The tree of an expression text. -/
def parse (source : String) : Except Fault Tree := do
  parseTokens (← tokens source)

/-- The tree of an expression text whose calls have acceptable numbers of arguments. -/
def compileTree (source : String) : Except Fault Tree := do
  let t ← parse source
  match t.arityFault? with
  | some fault => throw fault
  | none => return t

/-- The document an expression yields; what is undefined becomes null. -/
def result (now : String) (t : Tree) (input : Json) : Except EvalError Json :=
  (evaluate ⟨input, now, true⟩ maxDepth t).map fun v => v.getD .null

end Reshape.Expression
