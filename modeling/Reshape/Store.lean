/-
# The definition store

A store keeps definitions in the order they were added and answers the one query that
a worker needs: the active definitions of a workspace, best ones first.  It counts the
queries, and may be told to fail them.
-/
import Reshape.Definition

namespace Reshape

/-- A store of definitions. -/
structure Store where
  definitions : List Definition
  failing : Bool := false
  queries : Nat := 0
  closed : Bool := false

namespace Store

/-- Why a query has no answer. -/
inductive Fault
  | unavailable (reason : String)
  deriving DecidableEq, Repr

/-- The fault in words. -/
def Fault.message : Fault → String
  | unavailable reason => "Store unavailable: " ++ reason

/-- The active definitions of a workspace, higher versions first, then smaller ids;
what is equal in both stays in the order it was added. -/
def activeIn (workspace? : Option String) (ds : List Definition) : List Definition :=
  (ds.filter (·.isActiveIn workspace?)).mergeSort Definition.le

/-- The answer to the query for the active definitions of a workspace. -/
def findActive (s : Store) (workspace? : Option String) : Except Fault (List Definition) :=
  if s.failing then .error (.unavailable "Mock find failure")
  else .ok (activeIn workspace? s.definitions)

/-- The store after a query, answered or not. -/
def queried (s : Store) : Store := { s with queries := s.queries + 1 }

end Store

end Reshape
