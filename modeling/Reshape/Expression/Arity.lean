/-
# Arities of calls

Arguments are counted once the tree is complete, since a chain adds one to a call
after it was read.  The fault is that of the first call, callers before their callees
and arguments, whose function does not accept the number of arguments given.
-/
import Reshape.Expression.Tree

namespace Reshape.Expression

/-- The fault of calling `callee` with a number of arguments, if it does not accept it. -/
def callFault? (callee : Tree) (given position : Nat) : Option Fault :=
  match callee with
  | .builtin f =>
    if f.accepts given then none
    else some ⟨.arity f.name f.arity.1 f.arity.2 given, position⟩
  | _ => none

mutual

/-- The first fault of a call in a tree. -/
def Tree.arityFault? : Tree → Option Fault
  | .literal _ | .context | .root | .field _ | .var _ | .builtin _ => none
  | .path steps => Tree.arityFaultList? steps
  | .filter base predicate => base.arityFault?.or predicate.arityFault?
  | .binary _ l r => l.arityFault?.or r.arityFault?
  | .negate v => v.arityFault?
  | .condition test yes no? =>
    test.arityFault?.or (yes.arityFault?.or (Tree.arityFaultOption? no?))
  | .array items => Tree.arityFaultList? items
  | .object entries => Tree.arityFaultEntries? entries
  | .block items => Tree.arityFaultList? items
  | .bind _ v => v.arityFault?
  | .lambda _ body => body.arityFault?
  | .call callee args position =>
    (callFault? callee args.length position).or
      (callee.arityFault?.or (Tree.arityFaultList? args))

/-- The first fault in a row of trees. -/
def Tree.arityFaultList? : List Tree → Option Fault
  | [] => none
  | t :: rest => t.arityFault?.or (Tree.arityFaultList? rest)

/-- The fault in a tree that may be missing. -/
def Tree.arityFaultOption? : Option Tree → Option Fault
  | none => none
  | some t => t.arityFault?

/-- The first fault in a row of members, names before values. -/
def Tree.arityFaultEntries? : List (Tree × Tree) → Option Fault
  | [] => none
  | (k, v) :: rest => k.arityFault?.or (v.arityFault?.or (Tree.arityFaultEntries? rest))

end

end Reshape.Expression
