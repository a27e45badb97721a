/-
# Built-in functions: names and arities

The functions every expression may call by name, and how many arguments each takes.
-/

namespace Reshape.Expression

/-- A built-in function. -/
inductive Builtin
  | string | number | boolean | not | exists | count | sum | max | min | average
  | length | uppercase | lowercase | substring | join | keys | round | abs | floor | ceil
  | trim | contains | split | replace | merge | append | reverse | distinct | now
  | map | filter | reduce
  deriving DecidableEq, Repr

namespace Builtin

/-- The name of a function, without the dollar sign. -/
def name : Builtin → String
  | string => "string"
  | number => "number"
  | boolean => "boolean"
  | not => "not"
  | «exists» => "exists"
  | count => "count"
  | sum => "sum"
  | max => "max"
  | min => "min"
  | average => "average"
  | length => "length"
  | uppercase => "uppercase"
  | lowercase => "lowercase"
  | substring => "substring"
  | join => "join"
  | keys => "keys"
  | round => "round"
  | abs => "abs"
  | floor => "floor"
  | ceil => "ceil"
  | trim => "trim"
  | contains => "contains"
  | split => "split"
  | replace => "replace"
  | merge => "merge"
  | append => "append"
  | reverse => "reverse"
  | distinct => "distinct"
  | now => "now"
  | map => "map"
  | filter => "filter"
  | reduce => "reduce"

/-- All built-in functions. -/
def all : List Builtin :=
  [string, number, boolean, not, «exists», count, sum, max, min, average, length,
   uppercase, lowercase, substring, join, keys, round, abs, floor, ceil, trim, contains,
   split, replace, merge, append, reverse, distinct, now, map, filter, reduce]

/-- The function with a given name. -/
def ofName? (s : String) : Option Builtin := all.find? fun f => f.name == s

/-- The least and the greatest number of arguments. -/
def arity : Builtin → Nat × Nat
  | substring | split | reduce => (2, 3)
  | join | round => (1, 2)
  | replace => (3, 4)
  | contains | append | map | filter => (2, 2)
  | now => (0, 0)
  | _ => (1, 1)

/-- Whether a number of arguments lies within the bounds. -/
def accepts (f : Builtin) (given : Nat) : Bool := f.arity.1 ≤ given && given ≤ f.arity.2

/-- Whether the function takes a function as its second argument. -/
def isHigherOrder : Builtin → Bool
  | map | filter | reduce => true
  | _ => false

/-- Every function is found by its name. -/
theorem ofName?_name (f : Builtin) : ofName? f.name = some f := by
  cases f <;> decide

/-- A function is found only by its own name. -/
theorem name_of_ofName? {s : String} {f : Builtin} (h : ofName? s = some f) :
    f.name = s := by
  have := List.find?_some h
  simpa using this

end Builtin

end Reshape.Expression
