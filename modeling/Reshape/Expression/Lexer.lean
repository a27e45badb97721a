/-
# Tokenizing

Each step reads one lexeme at the start of the text that is left: blanks and comments,
which yield no token, or a token.  A lexeme knows how many characters it takes; the
offset of the next one follows from their bytes.
-/
import Reshape.Expression.Token
import Reshape.Text.Letter
import Reshape.Text.Blank
import Reshape.Text.Utf8

namespace Reshape.Expression

open Text (isBlank isDigit isNameStart isNamePart hexNumber? charOfCode?)

/-- A piece of the text: the token it stands for, if any, and its number of characters. -/
structure Lexeme where
  token? : Option Token
  length : Nat

namespace Lexer

/-! ## Comments and quoted names -/

/-- The number of characters up to and with the next end of a comment. -/
def commentLength? : List Char → Option Nat
  | '*' :: '/' :: _ => some 2
  | _ :: rest => (commentLength? rest).map (· + 1)
  | [] => none

/-- The characters before the next backtick. -/
def quotedName? : List Char → Option (List Char)
  | [] => none
  | c :: rest => if c == '`' then some [] else (quotedName? rest).map (c :: ·)

/-! ## Strings -/

/-- The character of a one-letter escape. -/
def simpleEscape? (c : Char) : Option Char :=
  if c == '"' || c == '\'' || c == '\\' || c == '/' then some c
  else if c == 'b' then some '\x08'
  else if c == 'f' then some '\x0c'
  else if c == 'n' then some '\n'
  else if c == 'r' then some '\r'
  else if c == 't' then some '\t'
  else none

/-- The character named by the four characters after the letter of an escape by number;
a plus sign may stand before the digits. -/
def numberEscape? (cs : List Char) : Option Char :=
  let digits := match cs with
    | '+' :: rest => rest
    | _ => cs
  (hexNumber? digits).bind charOfCode?

/-- The characters of a string up to its closing quote, and the number of characters
taken with it.  The string starts at byte `start`, and the text that is left at byte
`offset`. -/
def stringBody (quote : Char) (start : Nat) :
    (offset : Nat) → List Char → Except Fault (List Char × Nat)
  | _, [] => .error ⟨.unfinishedString, start⟩
  | _, ['\\'] => .error ⟨.unfinishedString, start⟩
  | offset, '\\' :: 'u' :: a :: b :: c :: d :: rest =>
    match numberEscape? [a, b, c, d] with
    | some x =>
      (stringBody quote start (offset + 2 + Text.Utf8.size [a, b, c, d]) rest).map
        fun (s, n) => (x :: s, n + 6)
    | none => .error ⟨.invalidNumberEscape, offset + 1⟩
  | offset, '\\' :: e :: rest =>
    if e == 'u' then .error ⟨.invalidNumberEscape, offset + 1⟩
    else match simpleEscape? e with
      | some x =>
        (stringBody quote start (offset + 2) rest).map fun (s, n) => (x :: s, n + 2)
      | none => .error ⟨.unsupportedEscape e, offset + 1⟩
  | offset, c :: rest =>
    if c == quote then .ok ([], 1)
    else
      (stringBody quote start (offset + c.utf8Size) rest).map fun (s, n) => (c :: s, n + 1)

/-! ## Numbers -/

/-- The digits at the start of a text, if it starts with a point and a digit. -/
def fraction (s : List Char) : List Char :=
  match s with
  | '.' :: rest => rest.takeWhile isDigit
  | _ => []

/-- The sign and the digits of an exponent at the start of a text. -/
def exponent (s : List Char) : List Char × List Char :=
  match s with
  | e :: rest =>
    if e == 'e' || e == 'E' then
      match rest with
      | '+' :: more => (['+'], more.takeWhile isDigit)
      | '-' :: more => (['-'], more.takeWhile isDigit)
      | _ => ([], rest.takeWhile isDigit)
    else ([], [])
  | [] => ([], [])

/-- The number at the start of a text that starts with a digit.  A point and an exponent
belong to it only if a digit follows. -/
def number (s : List Char) : Lexeme :=
  let whole := s.takeWhile isDigit
  let places := fraction (s.drop whole.length)
  let pointed := if places.isEmpty then 0 else places.length + 1
  let (sign, power) := exponent (s.drop (whole.length + pointed))
  let powered := if power.isEmpty then 0 else 1 + sign.length + power.length
  let e : Int := Text.decimal power
  let value : Decimal :=
    ⟨Text.decimal (whole ++ places), (if sign == ['-'] then -e else e) - places.length⟩
  ⟨some (.number (value.toBinary64 false)), whole.length + pointed + powered⟩

/-! ## Lexemes -/

/-- The variable at the start of a text whose dollar sign was taken. -/
def variableName (s : List Char) : List Char :=
  match s with
  | '$' :: _ => ['$']
  | _ => s.takeWhile isNamePart

/-- The lexeme at the start of the nonempty text `c :: rest`, which starts at byte
`offset`. -/
def lexeme (offset : Nat) (c : Char) (rest : List Char) : Except Fault Lexeme :=
  if isBlank c then .ok ⟨none, 1⟩
  else if c == '/' && rest.head? == some '*' then
    match commentLength? rest.tail with
    | some n => .ok ⟨none, n + 2⟩
    | none => .error ⟨.unfinishedComment, offset⟩
  else if isDigit c then .ok (number (c :: rest))
  else if c == '"' || c == '\'' then do
    let (s, n) ← stringBody c offset (offset + 1) rest
    return ⟨some (.string (String.ofList s)), n + 1⟩
  else if c == '`' then
    match quotedName? rest with
    | some s => .ok ⟨some (.name (String.ofList s)), s.length + 2⟩
    | none => .error ⟨.unfinishedName, offset⟩
  else if c == '$' then
    let s := variableName rest
    .ok ⟨some (.var (String.ofList s)), s.length + 1⟩
  else if isNameStart c then
    let s := c :: rest.takeWhile isNamePart
    .ok ⟨some (.name (String.ofList s)), s.length⟩
  else match Symbol.atStart? (c :: rest) with
    | some o => .ok ⟨some (.symbol o), o.chars.length⟩
    | none => .error ⟨.unexpectedCharacter c, offset⟩

/-- The tokens of a text that starts at byte `offset`; every step takes a character. -/
def tokensFrom : (steps : Nat) → (offset : Nat) → List Char → Except Fault (List Located)
  | 0, offset, _ => .ok [⟨.done, offset⟩]
  | _ + 1, offset, [] => .ok [⟨.done, offset⟩]
  | steps + 1, offset, c :: rest => do
    let l ← lexeme offset c rest
    let taken := (c :: rest).take l.length
    let more ← tokensFrom steps (offset + Text.Utf8.size taken) ((c :: rest).drop l.length)
    match l.token? with
    | some t => return ⟨t, offset⟩ :: more
    | none => return more

end Lexer

/-- The tokens of an expression text, the end mark last. -/
def tokens (source : String) : Except Fault (List Located) :=
  let s := source.toList
  Lexer.tokensFrom s.length 0 s

end Reshape.Expression
