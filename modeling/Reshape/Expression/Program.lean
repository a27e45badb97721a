/-
# Programs

A program turns documents into documents.  It may fail, or it may crash; a crash is an
answer of its own, so that whoever runs the program goes on.
-/
import Reshape.Expression.Compiled

namespace Reshape.Expression

/-- Why a program gives no document. -/
inductive Program.Fault
  | failed (e : EvalError)
  | crashed (text : String)
  deriving DecidableEq

/-- What is run on documents; `now` is the text of the present time. -/
structure Program where
  run : (now : String) → Json → Except Program.Fault Json

namespace Program

/-- The program of an expression tree. -/
def ofTree (t : Tree) : Program :=
  ⟨fun now input => (result now t input).mapError .failed⟩

/-- The program that crashes on every document. -/
def crashing (text : String) : Program := ⟨fun _ _ => .error (.crashed text)⟩

/-- The program of an expression text. -/
def compile (source : String) : Except Expression.Fault Program :=
  (compileTree source).map ofTree

end Program

/-- A way to make programs of expression texts. -/
abbrev Engine := String → Except Fault Program

end Reshape.Expression
