/-
# The built-in functions

What each built-in does with the values of its arguments.  An undefined first argument
makes most results undefined.  The three functions that take a function are not here:
they need the evaluator.
-/
import Reshape.Expression.Value
import Reshape.Binary64.Numeral
import Reshape.Text.Case
import Reshape.Text.Search
import Reshape.Text.Blank

namespace Reshape.Expression

open Binary64 (clampInt64 clampUInt64)

/-! ## Reading arguments -/

namespace Library

/-- The error of an argument that is not what the function expects. -/
def mismatch {α : Type} (f : Builtin) (what : String) : Except EvalError α :=
  .error (.argumentExpected f what)

/-- A string. -/
def stringArg (f : Builtin) : Json → Except EvalError (List Char)
  | .string s => .ok s.toList
  | _ => mismatch f "a string"

/-- A string that must be given. -/
def requiredString (f : Builtin) : Value → Except EvalError (List Char)
  | none => mismatch f "a string argument"
  | some v => stringArg f v

/-- The largest whole number that is not larger, within the signed 64-bit range. -/
def wholeOf : Binary64 → Int
  | .finite x => clampInt64 x.floorInt
  | .infinite s => if s then Word.minInt64 else Word.maxInt64
  | .nan => 0

/-- A whole number that must be given; a fraction is dropped toward the smaller. -/
def integerArg (f : Builtin) (v : Value) : Except EvalError Int :=
  match v.bind number? with
  | some x => .ok (wholeOf x)
  | none => mismatch f "a numeric argument"

/-- A whole number that may be missing. -/
def integerArg? (f : Builtin) : Value → Except EvalError (Option Int)
  | none => .ok none
  | some v => (integerArg f (some v)).map some

/-- A count that may be missing. -/
def limitArg? (f : Builtin) : Value → Except EvalError (Option Nat)
  | none => .ok none
  | some v =>
    match number? v with
    | some (.finite x) =>
      if x.signed < 0 then mismatch f "a non-negative limit"
      else .ok (some (clampUInt64 x.floorInt).toNat)
    | _ => mismatch f "a non-negative limit"

/-- A number. -/
def numberArg (f : Builtin) (v : Json) : Except EvalError Binary64 :=
  match number? v with
  | some x => .ok x
  | none => mismatch f "a number"

/-- The numbers of an array, or a number alone. -/
def numbersArg (f : Builtin) (v : Json) : Except EvalError (List Binary64) :=
  (itemsOf v).mapM fun item =>
    match number? item with
    | some x => .ok x
    | none => mismatch f "an array of numbers"

/-! ## Text functions -/

/-- A row of characters as a value. -/
def ofChars (s : List Char) : Json := .string (String.ofList s)

/-- The place of `start` in a text of `n` characters: a negative one is counted from the
end, and no place lies outside the text. -/
def beginningOf (n start : Int) : Int :=
  if start < 0 then max (clampInt64 (n + start)) 0 else min start n

/-- The place in a text of `n` characters at which at most `length?` characters from the place
`first` on end. -/
def endingOf (n first : Int) : (length? : Option Int) → Int
  | none => n
  | some k => if k ≤ 0 then first else min (clampInt64 (first + k)) n

/-- The characters of `s` from `start`, counted from the end if negative, and at most
`length?` of them. -/
def substringOf (s : List Char) (start : Int) (length? : Option Int) : List Char :=
  let first := beginningOf s.length start
  let last := endingOf s.length first length?
  (s.drop first.toNat).take (max last first - first).toNat

/-- The pieces of `s` between occurrences of `sep`; the characters if it is empty. -/
def piecesOf (sep s : List Char) : List (List Char) :=
  if sep.isEmpty then s.map fun c => [c] else Text.split sep s

/-- The number that a value stands for. -/
def toNumber (f : Builtin) (v : Json) : Except EvalError Json :=
  match v with
  | .number n => .ok (.number n)
  | .bool b => .ok (.number (.ofNat (if b then 1 else 0)))
  | .string s =>
    match Binary64.ofText? (Text.trim s.toList) with
    | some x => numberResult x
    | none => .error (.notANumeral s)
  | _ => mismatch f "a number, string or boolean"

/-- The strings of an array joined. -/
def joined (f : Builtin) (sep : List Char) (v : Json) : Except EvalError Json := do
  let parts ← (itemsOf v).mapM fun item =>
    match item with
    | .string s => .ok s.toList
    | _ => mismatch f "an array of strings"
  return ofChars (Text.join sep parts)

/-- The text with occurrences of a pattern replaced. -/
def replaced (f : Builtin) (text : Json) (pattern replacement limit : Value) :
    Except EvalError Json := do
  let s ← stringArg f text
  let p ← requiredString f pattern
  if p.isEmpty then throw .emptyPattern
  let r ← requiredString f replacement
  match ← limitArg? f limit with
  | some n => return ofChars (Text.replaceAtMost p r n s)
  | none => return ofChars (Text.replaceAll p r s)

/-! ## Number functions -/

/-- The double nearest to a whole number of items. -/
def countOf (n : Nat) : Binary64 := .ofInt n

/-- The double of ten to a power; of the power the lower 32 bits count, as a signed
number. -/
def tenTo (p : Int) : Binary64 := (Binary64.ofInt 10).power (Int32.ofInt p).toInt

/-- A number rounded to a number of decimal places, a half to the even neighbour. -/
def roundedTo (x : Binary64) (places : Int) : Binary64 :=
  ((x.mul (tenTo places)).roundEven).div (tenTo places)

/-- The largest number, the smallest one, or the mean; there is none of no numbers. -/
def summary (f : Builtin) (xs : List Binary64) : Except EvalError Value :=
  if xs.isEmpty then .ok none
  else
    let x := match f with
      | .max => xs.foldl Binary64.max (.infinite true)
      | .min => xs.foldl Binary64.min (.infinite false)
      | _ => (Binary64.sum xs).div (countOf xs.length)
    (numberResult x).map some

/-! ## Object and list functions -/

/-- The names of members as an array; nothing if there is none. -/
def namesOf (ms : Members) : Value :=
  if ms.isEmpty then none else some (.array ((Members.names ms).map .string))

/-- The names of the members of an object, or of the objects among the items. -/
def keysOf : Json → Value
  | .object ms => namesOf ms
  | .array items =>
    namesOf (items.foldl
      (fun acc item =>
        match item with
        | .object ms => acc.merge ms
        | _ => acc)
      ([] : Members))
  | _ => none

/-- The objects of an array, each set over those before. -/
def merged (f : Builtin) (v : Json) : Except EvalError Json := do
  let ms ← (itemsOf v).foldlM
    (fun (acc : Members) item =>
      match item with
      | .object ms => .ok (acc.merge ms)
      | _ => mismatch f "an array of objects")
    []
  return .object ms

/-- The items that equal none of the items kept before them, after those in `seen`. -/
def distinctFrom (seen : List Json) : List Json → List Json
  | [] => []
  | v :: rest =>
    if seen.any fun u => same u v then distinctFrom seen rest
    else v :: distinctFrom (v :: seen) rest

/-! ## Application -/

/-- Applies `g` to a value that is defined. -/
def onDefined (v : Value) (g : Json → Except EvalError Json) : Except EvalError Value :=
  match v with
  | none => .ok none
  | some w => (g w).map some

/-- The value of a function on the values of its arguments, where `now` is the text of
the present time. -/
def apply (f : Builtin) (now : String) (args : List Value) : Except EvalError Value :=
  let first := args.head?.getD none
  let second := (args.drop 1).head?.getD none
  let third := (args.drop 2).head?.getD none
  let fourth := (args.drop 3).head?.getD none
  match f with
  | .string => onDefined first fun v => .ok (.string (textOf v))
  | .number => onDefined first (toNumber f)
  | .boolean => onDefined first fun v => .ok (.bool (truthyJson v))
  | .not => onDefined first fun v => .ok (.bool !truthyJson v)
  | .exists => .ok (some (.bool first.isSome))
  | .count =>
    .ok (some (.number (.ofNat (match first with
      | none => 0
      | some (.array items) => items.length
      | some _ => 1))))
  | .sum => onDefined first fun v => do numberResult (Binary64.sum (← numbersArg f v))
  | .max | .min | .average =>
    match first with
    | none => .ok none
    | some v => do summary f (← numbersArg f v)
  | .length => onDefined first fun v => do
      return .number (.ofNat (← stringArg f v).length)
  | .uppercase => onDefined first fun v => do
      return .string (Text.upper (String.ofList (← stringArg f v)))
  | .lowercase => onDefined first fun v => do
      return .string (Text.lower (String.ofList (← stringArg f v)))
  | .substring => onDefined first fun v => do
      let s ← stringArg f v
      let start ← integerArg f second
      let length? ← integerArg? f third
      return ofChars (substringOf s start length?)
  | .join => onDefined first fun v => do
      let sep ← match second with
        | none => .ok []
        | some (.string s) => .ok s.toList
        | some _ => mismatch f "a string separator"
      joined f sep v
  | .keys => .ok (first.bind keysOf)
  | .round => onDefined first fun v => do
      let x ← numberArg f v
      let places ← integerArg? f second
      numberResult (roundedTo x (places.getD 0))
  | .abs => onDefined first fun v => do numberResult (← numberArg f v).abs
  | .floor => onDefined first fun v => do numberResult (← numberArg f v).floor
  | .ceil => onDefined first fun v => do numberResult (← numberArg f v).ceil
  | .trim => onDefined first fun v => do
      return ofChars (Text.join [' '] (Text.words (← stringArg f v)))
  | .contains => onDefined first fun v => do
      let s ← stringArg f v
      let p ← requiredString f second
      return .bool (Text.occursIn p s)
  | .split => onDefined first fun v => do
      let s ← stringArg f v
      let sep ← requiredString f second
      let pieces := (piecesOf sep s).map ofChars
      match ← limitArg? f third with
      | some n => return .array (pieces.take n)
      | none => return .array pieces
  | .replace => onDefined first fun v => replaced f v second third fourth
  | .merge => onDefined first (merged f)
  | .append =>
    match first, second with
    | none, other | other, none => .ok other
    | some a, some b => .ok (some (.array (itemsOf a ++ itemsOf b)))
  | .reverse => onDefined first fun v => .ok (.array (itemsOf v).reverse)
  | .distinct => onDefined first fun v =>
      match v with
      | .array items => .ok (.array (distinctFrom [] items))
      | other => .ok other
  | .now => .ok (some (.string now))
  | .map | .filter | .reduce => .error (.callbackOnly f)

end Library

end Reshape.Expression
