/-
# Transforms

A transform is a compiled expression with the topics it connects: messages of the
source topic are turned into records of the target topic.
-/
import Reshape.Expression.Program

namespace Reshape

/-- A compiled expression between two topics. -/
structure Transform where
  id : String
  source : String
  target : String
  version : UInt32
  expression : String
  program : Expression.Program

end Reshape
