/-
# Tokens of expressions

An expression text is a row of numbers, strings, names, variables and symbols, each
with the byte offset at which it starts, and an end mark behind the last byte.  A text
that is no expression has a cause and an offset too.
-/
import Reshape.Binary64.Decimal

namespace Reshape.Expression

/-! ## Symbols -/

/-- A symbol of the language. -/
inductive Symbol
  | notEqual | lessEqual | greaterEqual | chain | bind
  | dot | openBracket | closeBracket | openParen | closeParen | openBrace | closeBrace
  | comma | semicolon | colon | question
  | plus | minus | star | slash | percent | ampersand | equal | less | greater
  deriving DecidableEq, Repr

namespace Symbol

/-- The characters of a symbol. -/
def chars : Symbol → List Char
  | notEqual => ['!', '=']
  | lessEqual => ['<', '=']
  | greaterEqual => ['>', '=']
  | chain => ['~', '>']
  | bind => [':', '=']
  | dot => ['.']
  | openBracket => ['[']
  | closeBracket => [']']
  | openParen => ['(']
  | closeParen => [')']
  | openBrace => ['\x7b']
  | closeBrace => ['\x7d']
  | comma => [',']
  | semicolon => [';']
  | colon => [':']
  | question => ['?']
  | plus => ['+']
  | minus => ['-']
  | star => ['*']
  | slash => ['/']
  | percent => ['%']
  | ampersand => ['&']
  | equal => ['=']
  | less => ['<']
  | greater => ['>']

/-- The text of a symbol. -/
def text (s : Symbol) : String := String.ofList s.chars

/-- All symbols, the longer ones first. -/
def all : List Symbol :=
  [notEqual, lessEqual, greaterEqual, chain, bind, dot, openBracket, closeBracket,
   openParen, closeParen, openBrace, closeBrace, comma, semicolon, colon, question,
   plus, minus, star, slash, percent, ampersand, equal, less, greater]

/-- The symbol that a text starts with. -/
def atStart? (s : List Char) : Option Symbol := all.find? fun o => o.chars.isPrefixOf s

end Symbol

/-! ## Tokens -/

/-- A token.  The variables written with one and two dollar signs alone have the names
`""` and `"$"`. -/
inductive Token
  | number (x : Binary64)
  | string (s : String)
  | name (s : String)
  | var (s : String)
  | symbol (s : Symbol)
  | done
  deriving DecidableEq

/-- A token and the byte offset at which it starts. -/
structure Located where
  token : Token
  position : Nat
  deriving DecidableEq

/-- A token as error texts show it. -/
def Token.describe : Token → String
  | number x => s!"number {x.plainText}"
  | string s => s!"string \"{s}\""
  | name s => s!"name '{s}'"
  | var s => s!"variable ${s}"
  | symbol s => s!"'{s.text}'"
  | done => "end of expression"

/-! ## Faults -/

/-- The deepest nesting of an expression text; every operator of a chain counts. -/
def maxNesting : Nat := 64

/-- Why a text is no expression. -/
inductive Cause
  | unfinishedComment
  | unfinishedName
  | unfinishedString
  | invalidNumberEscape
  | unsupportedEscape (c : Char)
  | unexpectedCharacter (c : Char)
  | unexpected (t : Token)
  | expected (s : Symbol) (found : Token)
  | parameterExpected (found : Token)
  | nestedTooDeep
  | emptyPredicate
  | bindTarget
  | chainTarget
  | unnamedCall
  | unknownFunction (name : String)
  | unboundVariable (name : String)
  | arity (name : String) (least most given : Nat)
  deriving DecidableEq

/-- The cause in words. -/
def Cause.message : Cause → String
  | unfinishedComment => "unterminated comment"
  | unfinishedName => "unterminated quoted name"
  | unfinishedString => "unterminated string"
  | invalidNumberEscape => "invalid unicode escape"
  | unsupportedEscape c => s!"unsupported escape sequence '\\{c}'"
  | unexpectedCharacter c => s!"unexpected character '{c}'"
  | unexpected t => s!"unexpected {t.describe}"
  | expected s t => s!"expected '{s.text}' but found {t.describe}"
  | parameterExpected t => s!"expected a parameter but found {t.describe}"
  | nestedTooDeep => s!"expression nested deeper than {maxNesting} levels"
  | emptyPredicate => "empty predicate is not supported"
  | bindTarget => "left side of ':=' must be a variable"
  | chainTarget => "right side of '~>' must be a function"
  | unnamedCall => "only named functions can be invoked"
  | unknownFunction name => s!"unknown function ${name}"
  | unboundVariable name => s!"variable ${name} is not bound"
  | arity name least most given =>
    let bounds := if least == most then s!"{least}" else s!"{least}-{most}"
    s!"${name} expects {bounds} argument(s), got {given}"

/-- A cause and the byte offset it is reported at. -/
structure Fault where
  cause : Cause
  position : Nat
  deriving DecidableEq

/-- The fault in words, with its position. -/
def Fault.message (f : Fault) : String :=
  s!"Compile error at position {f.position}: {f.cause.message}"

end Reshape.Expression
