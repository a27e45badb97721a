/-
# Reading JSON

The reader walks the characters of a text with a cursor that counts bytes.  A text it
refuses has a cause and a byte offset, from which the line and the column follow.  A
fault about a character that was looked at but not taken lies behind that character,
one about a character that was taken lies behind the taken ones.

Arrays and objects may be nested 127 levels deep.  The reader recurses on the levels
that are left, so this limit is also what makes it end.

A numeral that is no integer is read in two steps that both round: its digits to a double,
and that double times a power of ten.  So it need not be read as the double nearest to it.
-/
import Reshape.Json.Basic
import Reshape.Text.Letter
import Reshape.Text.Utf8

namespace Reshape.Json

open Text (isDigit hexNumber?)

/-! ## Faults -/

/-- Why a text is not JSON. -/
inductive Cause
  | endInList
  | endInObject
  | endInString
  | endInValue
  | colonExpected
  | listCommaOrEndExpected
  | objectCommaOrEndExpected
  | identifierExpected
  | valueExpected
  | invalidEscape
  | invalidNumber
  | numberOutOfRange
  | controlCharacter
  | keyNotString
  | loneSurrogate
  | unfinishedSurrogate
  | trailingComma
  | trailingCharacters
  | nestedTooDeep
  deriving DecidableEq, Repr

/-- The cause in words. -/
def Cause.message : Cause → String
  | endInList => "EOF while parsing a list"
  | endInObject => "EOF while parsing an object"
  | endInString => "EOF while parsing a string"
  | endInValue => "EOF while parsing a value"
  | colonExpected => "expected `:`"
  | listCommaOrEndExpected => "expected `,` or `]`"
  | objectCommaOrEndExpected => "expected `,` or `\x7d`"
  | identifierExpected => "expected ident"
  | valueExpected => "expected value"
  | invalidEscape => "invalid escape"
  | invalidNumber => "invalid number"
  | numberOutOfRange => "number out of range"
  | controlCharacter =>
    "control character (\\u0000-\\u001F) found while parsing a string"
  | keyNotString => "key must be a string"
  | loneSurrogate => "lone leading surrogate in hex escape"
  | unfinishedSurrogate => "unexpected end of hex escape"
  | trailingComma => "trailing comma"
  | trailingCharacters => "trailing characters"
  | nestedTooDeep => "recursion limit exceeded"

/-- A cause and the number of bytes before the place it is reported at. -/
structure Fault where
  cause : Cause
  offset : Nat
  deriving DecidableEq, Repr

/-- A line, counted from one, and the number of bytes before a place on it. -/
structure Place where
  line : Nat
  column : Nat
  deriving DecidableEq, Repr

/-- The place `bytes` bytes after the place `p`, along the text `s`. -/
def Place.advance (p : Place) : (bytes : Nat) → (s : List Char) → Place
  | _, [] => p
  | 0, _ => p
  | bytes + 1, c :: rest =>
    if c == '\n' then Place.advance ⟨p.line + 1, 0⟩ bytes rest
    else
      Place.advance ⟨p.line, p.column + min (bytes + 1) c.utf8Size⟩
        (bytes + 1 - c.utf8Size) rest

/-- The place of a fault in its text. -/
def Fault.place (f : Fault) (s : List Char) : Place := Place.advance ⟨1, 0⟩ f.offset s

/-! ## The cursor -/

/-- The characters not yet taken, and the number of bytes taken. -/
structure Cursor where
  rest : List Char
  offset : Nat

namespace Cursor

/-- The cursor at the start of a text. -/
def start (s : List Char) : Cursor := ⟨s, 0⟩

/-- A fault right behind what was taken. -/
def taken (c : Cursor) (cause : Cause) : Fault := ⟨cause, c.offset⟩

/-- A fault behind the next byte, which was looked at. -/
def seen (c : Cursor) (cause : Cause) : Fault :=
  ⟨cause, if c.rest.isEmpty then c.offset else c.offset + 1⟩

/-- The cursor past the next character. -/
def next (c : Cursor) : Cursor :=
  match c.rest with
  | [] => c
  | x :: rest => ⟨rest, c.offset + x.utf8Size⟩

/-- A character between the tokens of JSON. -/
def isSpace (x : Char) : Bool := x == ' ' || x == '\n' || x == '\t' || x == '\r'

/-- The cursor past the spaces at it. -/
def skipSpaces (c : Cursor) : Cursor :=
  let n := (c.rest.takeWhile isSpace).length
  ⟨c.rest.drop n, c.offset + n⟩

/-- The digits at the cursor, and the cursor past them. -/
def digits (c : Cursor) : List Char × Cursor :=
  let ds := c.rest.takeWhile isDigit
  (ds, ⟨c.rest.dropWhile isDigit, c.offset + ds.length⟩)

end Cursor

/-! ## Words and strings -/

namespace Reader

/-- The rest `expected` of a word whose first character was taken. -/
def word (v : Json) : (expected : List Char) → Cursor → Except Fault (Json × Cursor)
  | [], c => .ok (v, c)
  | x :: more, c =>
    match c.rest with
    | [] => .error (c.taken .endInValue)
    | y :: _ =>
      if y == x then word v more c.next
      else .error ⟨.identifierExpected, c.offset + 1⟩

/-- The character of a one-letter escape. -/
def simpleEscape? (x : Char) : Option Char :=
  if x == '"' || x == '\\' || x == '/' then some x
  else if x == 'b' then some '\x08'
  else if x == 'f' then some '\x0c'
  else if x == 'n' then some '\n'
  else if x == 'r' then some '\r'
  else if x == 't' then some '\t'
  else none

/-- The number given by four hexadecimal digits.  The fault lies behind the four bytes,
or at the end of a text that has fewer. -/
def fourDigits (c : Cursor) : Except Fault (Nat × Cursor) :=
  match c.rest with
  | w :: x :: y :: z :: rest =>
    match hexNumber? [w, x, y, z] with
    | some n => .ok (n, ⟨rest, c.offset + 4⟩)
    | none => .error ⟨.invalidEscape, c.offset + 4⟩
  | _ =>
    let left := Text.Utf8.size c.rest
    if 4 ≤ left then .error ⟨.invalidEscape, c.offset + 4⟩
    else .error ⟨.endInString, c.offset + left⟩

/-- A high surrogate. -/
def isHighSurrogate (n : Nat) : Bool := 0xD800 ≤ n && n ≤ 0xDBFF

/-- A low surrogate. -/
def isLowSurrogate (n : Nat) : Bool := 0xDC00 ≤ n && n ≤ 0xDFFF

/-- The code point of a pair of surrogates. -/
def pairCode (high low : Nat) : Nat := (high - 0xD800) * 1024 + (low - 0xDC00) + 0x10000

/-- The expected character of a second escape. -/
def secondEscape (x : Char) (c : Cursor) : Except Fault (Unit × Cursor) :=
  match c.rest with
  | [] => .error (c.taken .endInString)
  | y :: _ => if y == x then .ok ((), c.next) else .error ⟨.unfinishedSurrogate, c.offset + 1⟩

/-- The character of an escape by number, whose letter was taken.  Characters beyond
the first plane are given by two surrogates. -/
def numberEscape (c : Cursor) : Except Fault (Char × Cursor) := do
  let (n, c) ← fourDigits c
  if isLowSurrogate n then throw (c.taken .loneSurrogate)
  if isHighSurrogate n then
    let (_, c) ← secondEscape '\\' c
    let (_, c) ← secondEscape 'u' c
    let (m, c) ← fourDigits c
    if isLowSurrogate m then return (Char.ofNat (pairCode n m), c)
    throw (c.taken .loneSurrogate)
  return (Char.ofNat n, c)

/-- The character of an escape whose backslash was taken. -/
def escape (c : Cursor) : Except Fault (Char × Cursor) :=
  match c.rest with
  | [] => .error (c.taken .endInString)
  | x :: _ =>
    if x == 'u' then numberEscape c.next
    else match simpleEscape? x with
      | some y => .ok (y, c.next)
      | none => .error ⟨.invalidEscape, c.offset + 1⟩

/-- The rest of a string up to its closing quote; `acc` holds the characters before,
last one first, and `steps` bounds the number of characters to come. -/
def stringFrom : (steps : Nat) → (acc : List Char) → Cursor → Except Fault (String × Cursor)
  | 0, _, c => .error (c.taken .endInString)
  | steps + 1, acc, c =>
    match c.rest with
    | [] => .error (c.taken .endInString)
    | x :: _ =>
      if x == '"' then .ok (String.ofList acc.reverse, c.next)
      else if x == '\\' then do
        let (y, c) ← escape c.next
        stringFrom steps (y :: acc) c
      else if x.toNat < 0x20 then .error ⟨.controlCharacter, c.offset + 1⟩
      else stringFrom steps (x :: acc) c.next

/-- A string whose opening quote was taken. -/
def stringBody (c : Cursor) : Except Fault (String × Cursor) := stringFrom (c.rest.length + 1) [] c

/-! ## Numbers -/

/-- The digits, the places after the point and the exponent of a numeral. -/
structure Numeral where
  digits : List Char
  fraction : List Char
  exponent : Int
  isWhole : Bool

/-- The largest significand that is kept: the greatest 64-bit word. -/
def significandLimit : Nat := Word.maxUInt64.toNat

/-- The number `n` with digits behind it, as many as fit, and the digits that do not. -/
def digitsWithin (n : Nat) : List Char → Nat × List Char
  | [] => (n, [])
  | d :: rest =>
    let m := 10 * n + (d.toNat - '0'.toNat)
    if significandLimit < m then (n, d :: rest) else digitsWithin m rest

/-- A numeral as a significand and a power of ten.  Digits that do not fit are dropped; those
before the point count as places nevertheless. -/
def Numeral.decimal (n : Numeral) : Decimal :=
  let (m, left) := digitsWithin 0 n.digits
  let (m, more) := digitsWithin m n.fraction
  ⟨m, left.length - (n.fraction.length - more.length : Int) + n.exponent⟩

/-- The digits before the point: a zero stands alone. -/
def wholeDigits (c : Cursor) : Except Fault ((List Char) × Cursor) :=
  match c.rest with
  | [] => .error (c.taken .endInValue)
  | x :: _ =>
    if x == '0' then
      match c.next.rest with
      | y :: _ => if isDigit y then .error (c.next.seen .invalidNumber) else .ok ([x], c.next)
      | [] => .ok ([x], c.next)
    else if isDigit x then .ok c.digits
    else .error ⟨.invalidNumber, c.offset + 1⟩

/-- The digits after the point, if there is one. -/
def fractionDigits (c : Cursor) : Except Fault ((Option (List Char)) × Cursor) :=
  match c.rest with
  | '.' :: _ =>
    let (ds, c) := c.next.digits
    if ds.isEmpty then
      if c.rest.isEmpty then .error (c.seen .endInValue) else .error (c.seen .invalidNumber)
    else .ok (some ds, c)
  | _ => .ok (none, c)

/-- The largest exponent that is read digit by digit. -/
def exponentLimit : Nat := Word.maxInt32.toNat

/-- The number of exponent digits after which the limit is passed, if it is. -/
def exponentOverflow? (taken value : Nat) : List Char → Option Nat
  | [] => none
  | d :: rest =>
    let value := 10 * value + (d.toNat - '0'.toNat)
    if exponentLimit < value then some (taken + 1)
    else exponentOverflow? (taken + 1) value rest

/-- The exponent, if there is one.  A positive exponent beyond the limit is out of range
at the digit that passes the limit, unless the digits before it are all zero. -/
def exponentPart (zero : Bool) (c : Cursor) : Except Fault ((Option Int) × Cursor) :=
  match c.rest with
  | x :: _ =>
    if x == 'e' || x == 'E' then
      let c := c.next
      let negative := c.rest.head? == some '-'
      let c := if negative || c.rest.head? == some '+' then c.next else c
      match c.rest with
      | [] => .error (c.taken .endInValue)
      | y :: _ =>
        if isDigit y then
          let (ds, after) := c.digits
          match exponentOverflow? 0 0 ds with
          | some n =>
            if !zero && !negative then .error ⟨.numberOutOfRange, c.offset + n⟩
            else .ok (some (if negative then -exponentLimit else 0), after)
          | none =>
            .ok (some (if negative then -(Text.decimal ds : Int) else Text.decimal ds), after)
        else .error ⟨.invalidNumber, c.offset + 1⟩
    else .ok (none, c)
  | [] => .ok (none, c)

/-- The largest power of ten that is multiplied or divided by at once. -/
def powerLimit : Nat := 308

/-- The double nearest to a power of ten. -/
def tenTo (k : Nat) : Binary64 := .ofInt (Nat.pow 10 k)

/-- A double divided so many times by the largest power of ten, as long as it is not zero. -/
def lowered : (times : Nat) → Binary64 → Binary64
  | 0, x => x
  | times + 1, x =>
    if x = .finite (.zero false) then x else lowered times (x.div (tenTo powerLimit))

/-- A double times a power of ten.  Every step rounds: the result need not be the double that
is nearest to the product. -/
def scaled (x : Binary64) (exponent : Int) : Binary64 :=
  if 0 ≤ exponent then
    if exponent ≤ powerLimit then x.mul (tenTo exponent.toNat)
    else if x = .finite (.zero false) then x
    else .infinite false
  else
    let places := (-exponent).toNat
    let times := (places - 1) / powerLimit
    (lowered times x).div (tenTo (places - times * powerLimit))

/-- The double that a numeral is read as. -/
def Numeral.toBinary64 (negative : Bool) (n : Numeral) : Binary64 :=
  let x := scaled (.ofInt n.decimal.digits) n.decimal.exponent
  if negative then x.neg else x

/-- The number of a numeral.  A numeral without point and exponent that fits a 64-bit
word is an integer, except for the negative zero; all others are doubles. -/
def Numeral.number? (negative : Bool) (n : Numeral) : Option Number :=
  let m : Int := Text.decimal n.digits
  let v := if negative then -m else m
  if h : n.isWhole ∧ Fits64 v ∧ (negative → v ≠ 0) then some (.whole v h.2.1)
  else Number.ofBinary64? (n.toBinary64 negative)

/-- A number whose sign was taken. -/
def number (negative : Bool) (c : Cursor) : Except Fault (Json × Cursor) := do
  let (ds, c) ← wholeDigits c
  let (fraction?, c) ← fractionDigits c
  let zero := (ds ++ fraction?.getD []).all (· == '0')
  let (exponent?, c) ← exponentPart zero c
  let numeral : Numeral :=
    ⟨ds, fraction?.getD [], exponent?.getD 0, fraction?.isNone && exponent?.isNone⟩
  match numeral.number? negative with
  | some n => return (.number n, c)
  | none => throw (c.taken .numberOutOfRange)

/-! ## Documents -/

/-- The items of an array whose opening bracket was taken; `acc` holds those before,
last one first, and `steps` bounds the number of items to come. -/
def itemsFrom (item : Cursor → Except Fault (Json × Cursor)) :
    (steps : Nat) → (acc : List Json) → Cursor → Except Fault ((List Json) × Cursor)
  | 0, _, c => .error (c.taken .endInList)
  | steps + 1, acc, c => do
    let c := c.skipSpaces
    match c.rest with
    | [] => .error (c.seen .endInList)
    | x :: _ =>
      if x == ']' then .ok (acc.reverse, c.next)
      else if acc.isEmpty then
        let (v, c) ← item c
        itemsFrom item steps (v :: acc) c
      else if x == ',' then
        let c := c.next.skipSpaces
        match c.rest with
        | [] => .error (c.seen .endInValue)
        | y :: _ =>
          if y == ']' then .error (c.seen .trailingComma)
          else
            let (v, c) ← item c
            itemsFrom item steps (v :: acc) c
      else .error (c.seen .listCommaOrEndExpected)

/-- A member whose opening quote is at the cursor. -/
def member (item : Cursor → Except Fault (Json × Cursor)) (c : Cursor) :
    Except Fault ((String × Json) × Cursor) := do
  let (k, c) ← stringBody c.next
  let c := c.skipSpaces
  match c.rest with
  | [] => .error (c.seen .endInObject)
  | x :: _ =>
    if x == ':' then
      let (v, c) ← item c.next
      return ((k, v), c)
    else .error (c.seen .colonExpected)

/-- The members of an object whose opening brace was taken, set after those in `acc`;
`first` says that none was read, and `steps` bounds the number of members to come. -/
def membersFrom (item : Cursor → Except Fault (Json × Cursor)) :
    (steps : Nat) → (first : Bool) → (acc : Members) → Cursor → Except Fault (Members × Cursor)
  | 0, _, _, c => .error (c.taken .endInObject)
  | steps + 1, first, acc, c => do
    let c := c.skipSpaces
    match c.rest with
    | [] => .error (c.seen .endInObject)
    | x :: _ =>
      if x == '\x7d' then .ok (acc, c.next)
      else if first then
        if x == '"' then
          let ((k, v), c) ← member item c
          membersFrom item steps false (acc.set k v) c
        else .error (c.seen .keyNotString)
      else if x == ',' then
        let c := c.next.skipSpaces
        match c.rest with
        | [] => .error (c.seen .endInValue)
        | y :: _ =>
          if y == '"' then
            let ((k, v), c) ← member item c
            membersFrom item steps false (acc.set k v) c
          else if y == '\x7d' then .error (c.seen .trailingComma)
          else .error (c.seen .keyNotString)
      else .error (c.seen .objectCommaOrEndExpected)

/-- A document, after spaces, with at most `levels` levels of arrays and objects. -/
def value (levels : Nat) (c : Cursor) : Except Fault (Json × Cursor) :=
  let c := c.skipSpaces
  match c.rest with
  | [] => .error (c.seen .endInValue)
  | x :: _ =>
    if x == 'n' then word .null ['u', 'l', 'l'] c.next
    else if x == 't' then word (.bool true) ['r', 'u', 'e'] c.next
    else if x == 'f' then word (.bool false) ['a', 'l', 's', 'e'] c.next
    else if x == '-' then number true c.next
    else if isDigit x then number false c
    else if x == '"' then do
      let (s, c) ← stringBody c.next
      return (.string s, c)
    else if x == '[' then
      match levels with
      | 0 => .error (c.seen .nestedTooDeep)
      | levels + 1 => do
        let (items, c) ← itemsFrom (value levels) (c.rest.length + 1) [] c.next
        return (.array items, c)
    else if x == '\x7b' then
      match levels with
      | 0 => .error (c.seen .nestedTooDeep)
      | levels + 1 => do
        let (members, c) ← membersFrom (value levels) (c.rest.length + 1) true [] c.next
        return (.object members, c)
    else .error (c.seen .valueExpected)

/-- The deepest nesting that is read. -/
def maxLevels : Nat := 127

end Reader

/-- The document that a text consists of. -/
def read (s : List Char) : Except Fault Json := do
  let (v, c) ← Reader.value Reader.maxLevels (.start s)
  let c := c.skipSpaces
  if c.rest.isEmpty then return v
  throw (c.seen .trailingCharacters)

/-- The fault in words, with its place. -/
def Fault.message (f : Fault) (s : List Char) : String :=
  let p := f.place s
  s!"{f.cause.message} at line {p.line} column {p.column}"

end Reshape.Json
