/-
# YAML tags

A tag says what a node has to be.  It is written in full or behind a handle, which stands
for the start of tags and may be declared before the document.  Characters of tags can
be written as the bytes of their code in hexadecimal digits.
-/
import Reshape.Yaml.Cursor

namespace Reshape.Yaml

open Text (charOfCode? decimal hexValue? isDigit)

/-! ## Characters of tags -/

/-- A character of a tag that is written in full. -/
def isUriChar (c : Char) : Bool :=
  isWordChar c || "#;/?:@&=+$,.!~*()[]%".toList.contains c || c == '\''

/-- A character of a tag behind a handle. -/
def isTagChar (c : Char) : Bool := isUriChar c && !isFlowIndicator c && c != '!'

/-- The byte at the start of a text: a percent sign and two hexadecimal digits. -/
def escapedByte? : List Char → Option Nat
  | '%' :: a :: b :: _ => do return 16 * (← hexValue? a) + (← hexValue? b)
  | _ => none

/-- The number of bytes for a character whose first byte is given. -/
def byteCount? (byte : Nat) : Option Nat :=
  if byte < 0x80 then some 1
  else if byte < 0xC0 then none
  else if byte < 0xE0 then some 2
  else if byte < 0xF0 then some 3
  else if byte < 0xF8 then some 4
  else none

/-- The number that bytes to come make, behind the bytes of `code`. -/
def escapedCode? : (n code : Nat) → List Char → Option Nat
  | 0, code, _ => some code
  | n + 1, code, s => do
    let byte ← escapedByte? s
    if 0x80 ≤ byte && byte < 0xC0 then escapedCode? n (256 * code + byte) (s.drop 3) else none

/-- The character that is written as bytes at the start of a text, and the number of
these.  Its code has the bytes for digits. -/
def escapedChar? (s : List Char) : Option (Char × Nat) := do
  let first ← escapedByte? s
  let count ← byteCount? first
  let code ← escapedCode? (count - 1) first (s.drop 3)
  return (← charOfCode? code, count)

/-- The longest start of a text that consists of allowed characters, with bytes read, and
the text past it; `n` bounds its length. -/
def tagText? (allowed : Char → Bool) : (n : Nat) → List Char → Option (List Char × List Char)
  | 0, s => some ([], s)
  | _ + 1, [] => some ([], [])
  | n + 1, c :: rest =>
    if !allowed c then some ([], c :: rest)
    else if c == '%' then do
      let (x, count) ← escapedChar? (c :: rest)
      let (xs, past) ← tagText? allowed n ((c :: rest).drop (3 * count))
      return (x :: xs, past)
    else do
      let (xs, past) ← tagText? allowed n rest
      return (c :: xs, past)

/-! ## Tags -/

/-- A tag as it is written: its handle, which is empty for a tag written in full, and what
comes after the handle. -/
structure Tag where
  handle : String
  suffix : String
  deriving DecidableEq, Repr

/-- The handle at the start of a text, an exclamation mark and maybe a word and another
one, and the text past it. -/
def handle? : List Char → Option (List Char × List Char)
  | '!' :: rest =>
    let word := rest.takeWhile isWordChar
    match rest.drop word.length with
    | '!' :: past => some ('!' :: (word ++ ['!']), past)
    | past => some ('!' :: word, past)
  | _ => none

/-- A handle that has an end of its own. -/
def isClosedHandle (handle : List Char) : Bool :=
  2 ≤ handle.length && handle.getLast? == some '!'

/-- The tag at the start of a text, and the text past it.  An exclamation mark by itself
is a tag without a handle. -/
def tag? (s : List Char) : Option (Tag × List Char) :=
  match s with
  | '!' :: '<' :: rest => do
    match ← tagText? isUriChar rest.length rest with
    | (text, '>' :: past) => return (⟨"", String.ofList text⟩, past)
    | _ => none
  | _ => do
    let (handle, rest) ← handle? s
    let (text, past) ← tagText? isTagChar rest.length rest
    if isClosedHandle handle then
      if text.isEmpty then none else return (⟨String.ofList handle, String.ofList text⟩, past)
    else
      let suffix := handle.tail ++ text
      return (if suffix.isEmpty then ⟨"", "!"⟩ else ⟨"!", String.ofList suffix⟩, past)

/-! ## Directives -/

/-- A line in front of a document: the version of the format, or a handle and what it
stands for. -/
inductive Directive
  | version
  | handle (name text : String)
  deriving DecidableEq, Repr

/-- The text past a number of at most nine digits. -/
def pastNumber? (s : List Char) : Option (List Char) :=
  let digits := s.takeWhile isDigit
  if digits.isEmpty || 9 < digits.length then none else some (s.drop digits.length)

/-- What a handle stands for, at the start of a text, and the text past it. -/
def handleText? (s : List Char) : Option (List Char × List Char) :=
  match s with
  | '!' :: rest => (tagText? isUriChar rest.length rest).map fun (text, past) => ('!' :: text, past)
  | c :: _ => if isTagChar c then tagText? isUriChar s.length s else none
  | [] => none

/-- The directive behind its name, and the text past it.  A directive of another name is
passed over to the end of the line and declares nothing. -/
def directive? (name : List Char) (s : List Char) : Option (Directive × List Char) :=
  if name == "YAML".toList then do
    match ← pastNumber? (s.dropWhile isWhite) with
    | '.' :: rest => return (.version, ← pastNumber? rest)
    | _ => none
  else if name == "TAG".toList then do
    let (handle, rest) ← handle? (s.dropWhile isWhite)
    if !isClosedHandle handle && handle.length != 1 then none
    else
      let (text, past) ← handleText? (rest.dropWhile isWhite)
      if endsToken past then return (.handle (String.ofList handle) (String.ofList text), past)
      else none
  else some (.handle "" "", s.dropWhile (· != '\n'))

/-! ## Declared handles -/

/-- What the handles stand for that a document declares. -/
abbrev Handles := List (String × String)

/-- The handles that the directives in front of a document declare: those of the last
directive.  The version must not be repeated. -/
def Handles.declared? (ds : List Directive) : Option Handles :=
  if 1 < (ds.filter (· == .version)).length then none
  else
    match ds.getLast? with
    | some (.handle name text) => some [(name, text)]
    | _ => some []

/-- The start of the tags of the core schema. -/
def corePrefix : String := "tag:yaml.org,2002:"

/-- The tag with what its handle stands for in place of the handle.  The handle of two
exclamation marks stands for the core schema; any other that has an end of its own has
to be declared. -/
def Tag.resolved? (handles : Handles) (t : Tag) : Option Tag :=
  match handles.lookup t.handle with
  | some text => some ⟨text, t.suffix⟩
  | none =>
    if t.handle = "!!" then some ⟨corePrefix, t.suffix⟩
    else if isClosedHandle t.handle.toList then none
    else some t

/-- The node of a plain scalar with a resolved tag. -/
def Tag.plain (t : Tag) (s : String) : Yaml :=
  if t.handle = corePrefix then ofCoreTag t.suffix s else .string s

end Reshape.Yaml
