/-
# Places in a YAML text

A cursor is a place in a text: the characters to come and where the next one stands.
Line breaks are all of one kind here, and the text ends at the first null character.
-/
import Reshape.Yaml

namespace Reshape.Yaml

/-! ## Characters -/

/-- A space or a tab. -/
def isWhite (c : Char) : Bool := c == ' ' || c == '\t'

/-- A character with a meaning between brackets. -/
def isFlowIndicator (c : Char) : Bool :=
  c == ',' || c == '[' || c == ']' || c == '\x7b' || c == '\x7d'

/-- A character of a word: a letter or digit of ASCII, a hyphen or an underscore. -/
def isWordChar (c : Char) : Bool :=
  ('0' ≤ c && c ≤ '9') || ('a' ≤ c && c ≤ 'z') || ('A' ≤ c && c ≤ 'Z') || c == '_' || c == '-'

/-- What comes next ends a token: white space, a line break or the end. -/
def endsToken : List Char → Bool
  | [] => true
  | c :: _ => isWhite c || c == '\n'

/-- What comes next is an indicator between brackets. -/
def startsFlow : List Char → Bool
  | [] => false
  | c :: _ => isFlowIndicator c

/-- What comes after a colon makes it the mark between key and value; between brackets
an indicator does so too. -/
def endsKey (flow : Bool) (s : List Char) : Bool := endsToken s || (flow && startsFlow s)

/-- The text with every line break a single line feed. -/
def unixBreaks : List Char → List Char
  | [] => []
  | '\r' :: '\n' :: rest => '\n' :: unixBreaks rest
  | '\r' :: rest => '\n' :: unixBreaks rest
  | c :: rest => c :: unixBreaks rest

/-! ## Cursors -/

/-- A place in a text: the characters to come, the line and the column of the next one,
the number of the characters before it, and whether only white space stands before it on
its line. -/
structure Cursor where
  rest : List Char
  line : Nat := 0
  column : Nat := 0
  offset : Nat := 0
  fresh : Bool := true

namespace Cursor

/-- The start of a text. -/
def start (s : List Char) : Cursor := ⟨(unixBreaks s).takeWhile (· != '\x00'), 0, 0, 0, true⟩

/-- The cursor past the next character. -/
def next (c : Cursor) : Cursor :=
  match c.rest with
  | [] => c
  | x :: rest =>
    if x == '\n' then ⟨rest, c.line + 1, 0, c.offset + 1, true⟩
    else ⟨rest, c.line, c.column + 1, c.offset + 1, c.fresh && isWhite x⟩

/-- The cursor past the next `n` characters. -/
def advance : (n : Nat) → Cursor → Cursor
  | 0, c => c
  | n + 1, c => advance n c.next

/-- The cursor at what is left of the text. -/
def upTo (c : Cursor) (rest : List Char) : Cursor := c.advance (c.rest.length - rest.length)

/-- The cursor at the end of the line. -/
def toLineEnd (c : Cursor) : Cursor := c.advance (c.rest.takeWhile (· != '\n')).length

/-- The next character. -/
def head? (c : Cursor) : Option Char := c.rest.head?

/-- The line has ended. -/
def atLineEnd (c : Cursor) : Bool :=
  match c.rest with
  | [] => true
  | x :: _ => x == '\n'

/-- The text goes on with white space or a line break. -/
def atWhite (c : Cursor) : Bool :=
  match c.rest with
  | [] => false
  | x :: _ => isWhite x || x == '\n'

/-- A row of three such characters stands here by itself at the start of a line. -/
def atMarker (x : Char) (c : Cursor) : Bool :=
  c.column == 0 &&
    match c.rest with
    | a :: b :: d :: rest => a == x && b == x && d == x && endsToken rest
    | _ => false

/-- A document starts or ends here with a marker. -/
def atDocumentMarker (c : Cursor) : Bool := c.atMarker '-' || c.atMarker '.'

/-! ## Space on a line -/

/-- White space on a line, with a comment behind it if there is one: the kinds of white
space among it, and the cursor past it. -/
structure Space where
  tabs : Bool
  spaces : Bool
  past : Cursor

/-- The space at a cursor, which may be none; a comment must be set off by white
space. -/
def space? (c : Cursor) : Option Space :=
  let white := c.rest.takeWhile isWhite
  let past := c.advance white.length
  let tabs := white.contains '\t'
  let spaces := white.contains ' '
  if past.head? == some '#' then
    if white.isEmpty then none else some ⟨tabs, spaces, past.toLineEnd⟩
  else some ⟨tabs, spaces, past⟩

/-! ## Gaps between tokens -/

/-- White space, comments and line breaks between tokens: whether a line break is among
them, and the cursor past them. -/
structure Gap where
  crossed : Bool
  past : Cursor

/-- The gap that goes on at a cursor, of at most `n` pieces.  A block is indented with
spaces: a line must not have content behind a tab that stands before the column
`indent`, and `tabbed` says that this line has such a tab. -/
def gapFrom? (inBlock : Bool) (indent : Int) :
    (n : Nat) → (crossed tabbed : Bool) → Cursor → Option Gap
  | 0, crossed, _, c => some ⟨crossed, c⟩
  | n + 1, crossed, tabbed, c =>
    match c.rest with
    | [] => some ⟨crossed, c⟩
    | x :: _ =>
      if x == '\n' then gapFrom? inBlock indent n true false c.next
      else if x == ' ' then gapFrom? inBlock indent n crossed tabbed c.next
      else if x == '\t' then
        let outside := inBlock && c.fresh && decide ((c.column : Int) < indent)
        gapFrom? inBlock indent n crossed (tabbed || outside) c.next
      else if x == '#' then gapFrom? inBlock indent n crossed tabbed c.toLineEnd
      else if tabbed then none
      else some ⟨crossed, c⟩

/-- The gap at a cursor. -/
def gap? (inBlock : Bool) (indent : Int) (c : Cursor) : Option Gap :=
  gapFrom? inBlock indent (c.rest.length + 1) false false c

end Cursor

end Reshape.Yaml
