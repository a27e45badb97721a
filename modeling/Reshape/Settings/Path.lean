/-
# Paths to settings

A path names a setting within tables and lists, as in `kafka.brokers[0]`.  Setting the
value at a path makes the tables and lists on the way as they are needed.  Names of
settings are kept in lower case.  Items are counted from zero, or from the end of a list
with negative numbers.
-/
import Reshape.Settings.Value

namespace Reshape.Settings

open Text (int64? isDigit lower)

/-! ## Paths -/

/-- A step of a path: to an entry of a table or to an item of a list. -/
inductive Step
  | name (s : String)
  | index (n : Int64)
  deriving DecidableEq, Repr

namespace Step

/-- A character of a name in a path. -/
def isNameChar (c : Char) : Bool :=
  ('a' ≤ c && c ≤ 'z') || ('A' ≤ c && c ≤ 'Z') || isDigit c || c == ' ' || c == '_' || c == '-'

/-- The number in brackets, with spaces around it, and the text past the closing
bracket. -/
def index? (s : List Char) : Option (Int64 × List Char) :=
  let s := s.dropWhile (· == ' ')
  let sign := (s.take 1).filter (· == '-')
  let digits := (s.drop sign.length).takeWhile isDigit
  match (s.drop (sign.length + digits.length)).dropWhile (· == ' ') with
  | ']' :: rest => (int64? (sign ++ digits)).map fun n => (n, rest)
  | _ => none

/-- The steps that a text consists of, at most `n`. -/
def steps? : (n : Nat) → List Char → Option (List Step)
  | _, [] => some []
  | 0, _ => none
  | n + 1, '.' :: rest =>
    let name := rest.takeWhile isNameChar
    if name.isEmpty then none
    else (steps? n (rest.drop name.length)).map (.name (String.ofList name) :: ·)
  | n + 1, '[' :: rest => do
    let (i, rest) ← index? rest
    return .index i :: (← steps? n rest)
  | _ + 1, _ => none

/-- The path that a text describes; a text that describes none is a name by itself. -/
def pathOf (s : String) : List Step :=
  let cs := s.toList
  let name := cs.takeWhile isNameChar
  let rest := cs.drop name.length
  if name.isEmpty then [.name s]
  else
    match steps? rest.length rest with
    | some steps => .name (String.ofList name) :: steps
    | none => [.name s]

end Step

/-! ## Setting values -/

namespace Value

/-- The entries of a table; what is no table has none. -/
def entries : Value → List (String × Value)
  | table es => es
  | _ => []

/-- The items of a list; what is no list has none. -/
def items : Value → List Value
  | list vs => vs
  | _ => []

/-- The entries with the value of one of them altered; a missing one is added. -/
def alterEntry (f : Option Value → Value) (k : String) :
    List (String × Value) → List (String × Value)
  | [] => [(k, f Option.none)]
  | (k', v) :: rest =>
    if k' = k then (k', f (some v)) :: rest else (k', v) :: alterEntry f k rest

/-- The items with one of them altered; if there are too few, items without a value are
added first. -/
def alterItem (f : Value → Value) : (n : Nat) → List Value → List Value
  | 0, [] => [f none]
  | 0, v :: rest => f v :: rest
  | n + 1, [] => none :: alterItem f n []
  | n + 1, v :: rest => v :: alterItem f n rest

mutual

/-- The table `root` with a value set under a name.  A table is merged into what is there
entry by entry; any other value replaces it. -/
def put (root : Value) (k : String) : Value → Value
  | table es =>
    let merged (old? : Option Value) : Value := putAll (old?.getD (table [])) es
    table (alterEntry merged (lower k) root.entries)
  | v => table (alterEntry (fun _ => v) (lower k) root.entries)

/-- The table `root` with several values set, one after the other. -/
def putAll (root : Value) : List (String × Value) → Value
  | [] => root
  | (k, v) :: rest => putAll (root.put k v) rest

end

/-- The place of an item in a list of `count`; a place before the first item is none. -/
def place? (count : Nat) (n : Int64) : Option Nat :=
  let i := if 0 ≤ n then n.toInt else n.toInt + count
  if 0 ≤ i then some i.toNat else Option.none

/-- The value with another one set at a path within it. -/
def setAt (v : Value) : List Step → Value → Value
  | [], new => new
  | [.name k], new => v.put k new
  | .name k :: rest, new =>
    table (alterEntry (fun old? => setAt (old?.getD none) rest new) (lower k) v.entries)
  | .index n :: rest, new =>
    match place? v.items.length n with
    | some i => list (alterItem (fun old => setAt old rest new) i v.items)
    | Option.none => list v.items

end Value

end Reshape.Settings
