/-
# Reading records

A record with named fields is written as an object, or as an array of its fields in
order.  Reading one first takes its fields apart without looking into their values,
then reads the values of the known fields.  Values of unknown members only have to be
well shaped: they may be nested to any depth, their numbers may be of any size, and
their escapes need not name characters.

A repeated known field and an array with too many items are refused.
-/
import Reshape.Json.Reader

namespace Reshape.Json

open Text (isDigit hexValue?)

/-! ## The shape of values -/

namespace Shape

/-- The text past the spaces at its start. -/
def skipSpaces (s : List Char) : List Char := s.dropWhile Cursor.isSpace

/-- The text past the rest of a string whose opening quote was taken; `steps` bounds
the number of characters to come. -/
def string : (steps : Nat) → List Char → Option (List Char)
  | 0, _ => none
  | _ + 1, [] => none
  | steps + 1, '\\' :: 'u' :: a :: b :: c :: d :: rest =>
    if [a, b, c, d].all fun x => (hexValue? x).isSome then string steps rest else none
  | steps + 1, '\\' :: x :: rest =>
    if (Reader.simpleEscape? x).isSome then string steps rest else none
  | steps + 1, x :: rest =>
    if x == '"' then some rest
    else if x == '\\' || x.toNat < 0x20 then none
    else string steps rest

/-- The text past a number, sign included. -/
def number (s : List Char) : Option (List Char) :=
  let c : Cursor := .start (if s.head? == some '-' then s.tail else s)
  match Reader.wholeDigits c with
  | .error _ => none
  | .ok (_, c) =>
    match Reader.fractionDigits c with
    | .error _ => none
    | .ok (_, c) =>
      match Reader.exponentPart true c with
      | .error _ => none
      | .ok (_, c) => some c.rest

/-- The text past a word. -/
def word (w s : List Char) : Option (List Char) :=
  if w.isPrefixOf s then some (s.drop w.length) else none

mutual

/-- The text past a value, after spaces; `steps` bounds the work. -/
def value : (steps : Nat) → List Char → Option (List Char)
  | 0, _ => none
  | steps + 1, s =>
    match skipSpaces s with
    | [] => none
    | x :: rest =>
      if x == 'n' then word ['u', 'l', 'l'] rest
      else if x == 't' then word ['r', 'u', 'e'] rest
      else if x == 'f' then word ['a', 'l', 's', 'e'] rest
      else if x == '"' then string (rest.length + 1) rest
      else if x == '-' || isDigit x then number (x :: rest)
      else if x == '[' then items steps true rest
      else if x == '\x7b' then members steps true rest
      else none

/-- The text past the items of an array; `first` says that none was passed. -/
def items : (steps : Nat) → (first : Bool) → List Char → Option (List Char)
  | 0, _, _ => none
  | steps + 1, first, s =>
    match skipSpaces s with
    | [] => none
    | x :: rest =>
      if x == ']' then if first then some rest else none
      else (value steps (x :: rest)).bind fun s =>
        match skipSpaces s with
        | ',' :: rest => items steps false rest
        | ']' :: rest => some rest
        | _ => none

/-- The text past the members of an object; `first` says that none was passed. -/
def members : (steps : Nat) → (first : Bool) → List Char → Option (List Char)
  | 0, _, _ => none
  | steps + 1, first, s =>
    match skipSpaces s with
    | [] => none
    | x :: rest =>
      if x == '\x7d' then if first then some rest else none
      else if x == '"' then
        (string (rest.length + 1) rest).bind fun s =>
          match skipSpaces s with
          | ':' :: rest =>
            (value steps rest).bind fun s =>
              match skipSpaces s with
              | ',' :: rest => members steps false rest
              | '\x7d' :: rest => some rest
              | _ => none
          | _ => none
      else none

end

/-- The text of a value and the text past it. -/
def taken (s : List Char) : Option (List Char × List Char) :=
  (value (2 * s.length + 2) s).map fun rest => (s.take (s.length - rest.length), rest)

end Shape

/-! ## Records taken apart -/

/-- An object or an array with the texts of the values in it. -/
inductive Outline
  | object (members : List (String × List Char))
  | array (items : List (List Char))

namespace Outline

/-- The item texts of an array whose opening bracket was taken. -/
def items : (steps : Nat) → (first : Bool) → List Char → Option (List (List Char) × List Char)
  | 0, _, _ => none
  | steps + 1, first, s =>
    match Shape.skipSpaces s with
    | ']' :: rest => if first then some ([], rest) else none
    | s => do
      let (v, s) ← Shape.taken s
      match Shape.skipSpaces s with
      | ',' :: rest =>
        let (vs, rest) ← items steps false rest
        return (v :: vs, rest)
      | ']' :: rest => return ([v], rest)
      | _ => none

/-- The members of an object whose opening brace was taken. -/
def members : (steps : Nat) → (first : Bool) → List Char →
    Option (List (String × List Char) × List Char)
  | 0, _, _ => none
  | steps + 1, first, s =>
    match Shape.skipSpaces s with
    | '\x7d' :: rest => if first then some ([], rest) else none
    | '"' :: rest =>
      match Reader.stringBody (.start rest) with
      | .error _ => none
      | .ok (k, c) =>
        match Shape.skipSpaces c.rest with
        | ':' :: rest => do
          let (v, s) ← Shape.taken rest
          match Shape.skipSpaces s with
          | ',' :: rest =>
            let (ms, rest) ← members steps false rest
            return ((k, v) :: ms, rest)
          | '\x7d' :: rest => return ([(k, v)], rest)
          | _ => none
        | _ => none
    | _ => none

/-- The outline of a text that consists of one object or array. -/
def read? (s : List Char) : Option Outline := do
  let (outline, rest) ← match Shape.skipSpaces s with
    | '[' :: rest => (items (rest.length + 1) true rest).map fun (vs, rest) => (array vs, rest)
    | '\x7b' :: rest =>
      (members (rest.length + 1) true rest).map fun (ms, rest) => (object ms, rest)
    | _ => none
  if (Shape.skipSpaces rest).isEmpty then some outline else none

end Outline

/-! ## Fields -/

/-- The values given for the fields `names`, in their order, by a list of named values:
none for a field that is missing, and no answer if a field is given twice. -/
def namedFields {α : Type} (names : List String) (given : List (String × α)) :
    Option (List (Option α)) :=
  names.mapM fun k =>
    match given.filter (·.1 == k) with
    | [] => some none
    | [(_, v)] => some (some v)
    | _ => none

/-- The values given for `count` fields by position, if there are not too many. -/
def placedFields {α : Type} (count : Nat) (given : List α) : Option (List (Option α)) :=
  if given.length ≤ count then
    some (given.map some ++ List.replicate (count - given.length) none)
  else none

/-- The texts of the fields `names` of a record. -/
def Outline.fields (names : List String) : Outline → Option (List (Option (List Char)))
  | object members => namedFields names members
  | array items => placedFields names.length items

/-- The document that the text of a field consists of. -/
def fieldValue? (s : List Char) : Option Json := (read s).toOption

/-! ## Values of fields -/

/-- The string that a document is. -/
def string? : Json → Option String
  | .string s => some s
  | _ => none

/-- The integer between two bounds that a document is. -/
def intBetween? (lo hi : Int) : Json → Option Int
  | .number (.whole n _) => if lo ≤ n ∧ n ≤ hi then some n else none
  | _ => none

/-- A null stands for a missing value; otherwise `f` reads it. -/
def optional? {α : Type} (f : Json → Option α) : Json → Option (Option α)
  | .null => some none
  | v => (f v).map some

/-- The string that a field holds, if it is there and holds one. -/
def stringField? (field? : Option (List Char)) : Option String := do
  string? (← fieldValue? (← field?))

/-- The integer between two bounds that a field holds, if it is there and holds one. -/
def intField? (lo hi : Int) (field? : Option (List Char)) : Option Int := do
  intBetween? lo hi (← fieldValue? (← field?))

/-- What `f` reads in a field that may be missing. -/
def optionalField? {α : Type} (f : Json → Option α) : Option (List Char) → Option (Option α)
  | none => some none
  | some s => do optional? f (← fieldValue? s)

end Reshape.Json
