/-
# YAML

A node is a single value, a sequence or a mapping.  A plain scalar, one without quotes,
is what it looks like: nothing, a truth value, a number or a text.  A tag says what a
plain scalar has to be.
-/
import Reshape.Binary64.Numeral
import Reshape.Text.Numeral

namespace Reshape

open Text (hexValue? int64? isDigit)

/-- A node; a number with places is kept as it is written.  A node that is not what its
tag says is `invalid`. -/
inductive Yaml
  | null
  | bool (b : Bool)
  | whole (n : Int64)
  | real (text : String)
  | string (s : String)
  | sequence (items : List Yaml)
  | mapping (entries : List (Yaml × Yaml))
  | invalid

instance : Inhabited Yaml := ⟨.null⟩

namespace Yaml

/-! ## Scalars -/

/-- The number that digits of a base denote, with an optional sign, if it fits a signed
64-bit word. -/
def based? (base : Nat) (s : List Char) : Option Int64 :=
  let (negative, digits) := match s with
    | '-' :: rest => (true, rest)
    | '+' :: rest => (false, rest)
    | _ => (false, s)
  let digit? (c : Char) : Option Nat := (hexValue? c).filter (· < base)
  if digits.isEmpty then none
  else
    (digits.foldlM (fun (n : Nat) c => (digit? c).map (base * n + ·)) 0).bind fun n =>
      Word.int64? (if negative then -(n : Int) else n)

/-- The words with a point for the numbers that have no digits. -/
def specialNumbers : List String :=
  [".inf", ".Inf", ".INF", "+.inf", "+.Inf", "+.INF", "-.inf", "-.Inf", "-.INF",
   ".nan", "NaN", ".NAN"]

/-- A text that is written like a number with places; the words for infinity and for no
number count as such in any case. -/
def isReal (s : String) : Bool :=
  specialNumbers.contains s || (Binary64.ofText? s.toList).isSome

/-- The whole number that a text is written like. -/
def whole? (s : List Char) : Option Int64 :=
  let marked? := match s with
    | '0' :: 'x' :: rest => based? 16 rest
    | '0' :: 'o' :: rest => based? 8 rest
    | '+' :: rest => int64? rest
    | _ => none
  marked?.orElse fun _ => int64? s

/-- What a plain scalar is. -/
def ofPlain (s : String) : Yaml :=
  if s = "~" || s = "null" then null
  else if s = "true" then bool true
  else if s = "false" then bool false
  else
    match whole? s.toList with
    | some n => whole n
    | none => if isReal s then real s else string s

/-- What a plain scalar is that has a tag of the core schema with the given suffix. -/
def ofCoreTag (suffix s : String) : Yaml :=
  match suffix with
  | "bool" => if s = "true" then bool true else if s = "false" then bool false else invalid
  | "int" =>
    match int64? s.toList with
    | some n => whole n
    | none => invalid
  | "float" => if isReal s then real s else invalid
  | "null" => if s = "~" || s = "null" then null else invalid
  | _ => string s

/-! ## Mappings -/

mutual

/-- Two nodes are the same. -/
def same : Yaml → Yaml → Bool
  | null, null => true
  | bool a, bool b => a == b
  | whole a, whole b => a == b
  | real a, real b => a == b
  | string a, string b => a == b
  | sequence a, sequence b => sameItems a b
  | mapping a, mapping b => sameEntries a b
  | invalid, invalid => true
  | _, _ => false

/-- Two lists of nodes are the same item by item. -/
def sameItems : List Yaml → List Yaml → Bool
  | [], [] => true
  | v :: vs, w :: ws => same v w && sameItems vs ws
  | _, _ => false

/-- Two lists of entries are the same entry by entry. -/
def sameEntries : List (Yaml × Yaml) → List (Yaml × Yaml) → Bool
  | [], [] => true
  | (k, v) :: rest, (k', v') :: rest' => same k k' && same v v' && sameEntries rest rest'
  | _, _ => false

end

/-- A key is among the entries. -/
def hasKey (k : Yaml) (entries : List (Yaml × Yaml)) : Bool :=
  entries.any fun (k', _) => same k k'

/-- A node that is not what its tag says cannot be a key. -/
def isInvalid : Yaml → Bool
  | invalid => true
  | _ => false

/-- The entries that nodes in a row make, keys and values by turns, after the entries so
far.  A node that cannot be a key is passed over where a key is due, and a key must not
be repeated. -/
def entriesFrom? : (entries : List (Yaml × Yaml)) → (key? : Option Yaml) → List Yaml →
    Option (List (Yaml × Yaml))
  | entries, _, [] => some entries
  | entries, none, v :: rest =>
    entriesFrom? entries (if isInvalid v then none else some v) rest
  | entries, some k, v :: rest =>
    if hasKey k entries then none else entriesFrom? (entries ++ [(k, v)]) none rest

/-- The mapping whose keys and values stand in a row by turns. -/
def mapping? (nodes : List Yaml) : Option Yaml := (entriesFrom? [] none nodes).map mapping

end Yaml

end Reshape
