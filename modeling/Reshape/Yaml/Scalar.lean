/-
# YAML scalars

Scalars are plain, quoted or written as blocks of lines.  Where a plain or quoted scalar
goes on over lines, a single line break is read as a space, and of several line breaks
all but one are kept.
-/
import Reshape.Yaml.Cursor

namespace Reshape.Yaml

open Text (charOfCode? hexNumber? isDigit)

/-- The text of a scalar and the cursor past it. -/
structure Scalar where
  text : List Char
  after : Cursor

/-- What line breaks within a scalar are read as, and what white space without line
breaks is. -/
def folded (white : List Char) : (breaks : Nat) → List Char
  | 0 => white
  | 1 => [' ']
  | n + 2 => List.replicate (n + 1) '\n'

/-! ## Plain scalars -/

/-- The characters of a plain scalar up to white space, or to a mark that ends the
scalar. -/
def plainWord (flow : Bool) : List Char → List Char
  | [] => []
  | c :: rest =>
    if isWhite c || c == '\n' || (c == ':' && endsKey flow rest) || (flow && isFlowIndicator c)
    then []
    else c :: plainWord flow rest

/-- White space and line breaks within a plain scalar, and the cursor past them.  A tab
must not stand before the column `indent` of a line with content. -/
def plainGap? (indent : Int) :
    (n : Nat) → (white : List Char) → (breaks : Nat) → Cursor → Option (List Char × Cursor)
  | 0, white, breaks, c => some (folded white breaks, c)
  | n + 1, white, breaks, c =>
    match c.rest with
    | [] => some (folded white breaks, c)
    | x :: _ =>
      if x == '\n' then plainGap? indent n [] (breaks + 1) c.next
      else if !isWhite x then some (folded white breaks, c)
      else if !c.fresh then plainGap? indent n (white ++ [x]) breaks c.next
      else if x == '\t' && decide ((c.column : Int) < indent) then do
        let past := (← c.space?).past
        if past.atLineEnd then plainGap? indent n white breaks past else none
      else plainGap? indent n white breaks c.next

/-- The scalar that goes on after `text` and what is between, over at most `n` more words.
Lines that go on are indented to the column `indent`, unless they are between
brackets. -/
def plainFrom? (flow : Bool) (indent : Int) :
    (n : Nat) → (text between : List Char) → Cursor → Option Scalar
  | 0, text, _, c => some ⟨text, c⟩
  | n + 1, text, between, c =>
    if c.atDocumentMarker || c.head? == some '#' then some ⟨text, c⟩
    else if flow && c.head? == some '-' && startsFlow c.rest.tail then none
    else
      let word := plainWord flow c.rest
      let text := if word.isEmpty then text else text ++ between ++ word
      let c := c.advance word.length
      if !c.atWhite then some ⟨text, c⟩
      else do
        let (between, c) ← plainGap? indent (c.rest.length + 1) [] 0 c
        if !flow && decide ((c.column : Int) < indent) then some ⟨text, c⟩
        else plainFrom? flow indent n text between c

/-- The plain scalar at a cursor. -/
def plainScalar? (flow : Bool) (indent : Int) (c : Cursor) : Option Scalar :=
  if flow && decide ((c.column : Int) < indent) then none
  else plainFrom? flow indent (c.rest.length + 1) [] [] c

/-! ## Quoted scalars -/

/-- The character that a letter after a backslash stands for. -/
def simpleEscape? (x : Char) : Option Char :=
  if x == '0' then some '\x00'
  else if x == 'a' then some '\x07'
  else if x == 'b' then some '\x08'
  else if x == 't' || x == '\t' then some '\t'
  else if x == 'n' then some '\n'
  else if x == 'v' then some '\x0b'
  else if x == 'f' then some '\x0c'
  else if x == 'r' then some '\r'
  else if x == 'e' then some '\x1b'
  else if x == ' ' || x == '"' || x == '/' || x == '\\' then some x
  else if x == 'N' then some '\u0085'
  else if x == '_' then some '\u00a0'
  else if x == 'L' then some '\u2028'
  else if x == 'P' then some '\u2029'
  else none

/-- The number of hexadecimal digits after a letter that stands for a code point. -/
def digitCount? (x : Char) : Option Nat :=
  if x == 'x' then some 2 else if x == 'u' then some 4 else if x == 'U' then some 8 else none

/-- The character that the text after a backslash stands for, and the length of that
text. -/
def escape? : List Char → Option (Char × Nat)
  | [] => none
  | x :: rest =>
    match simpleEscape? x with
    | some c => some (c, 1)
    | none => do
      let n ← digitCount? x
      let digits := rest.take n
      if digits.length < n then none
      else return (← charOfCode? (← hexNumber? digits), n + 1)

/-- A part of a quoted scalar without white space. -/
structure QuotedWord where
  text : List Char
  /-- A backslash takes the line break behind the part away. -/
  joined : Bool
  after : Cursor

/-- The word that goes on after `text`. -/
def quotedWordFrom? (quote : Char) : (n : Nat) → (text : List Char) → Cursor → Option QuotedWord
  | 0, text, c => some ⟨text, false, c⟩
  | n + 1, text, c =>
    match c.rest with
    | [] => some ⟨text, false, c⟩
    | x :: rest =>
      if isWhite x || x == '\n' then some ⟨text, false, c⟩
      else if x == quote then
        if quote == '\'' && rest.head? == some '\'' then
          quotedWordFrom? quote n (text ++ ['\'']) (c.advance 2)
        else some ⟨text, false, c⟩
      else if x == '\\' && quote == '"' then
        if rest.head? == some '\n' then some ⟨text, true, c.advance 2⟩
        else
          match escape? rest with
          | some (y, length) => quotedWordFrom? quote n (text ++ [y]) (c.advance (length + 1))
          | none => none
      else quotedWordFrom? quote n (text ++ [x]) c.next

/-- White space and line breaks within a quoted scalar.  No tab stands before the column
`indent` of a line, and where lines are `joined` every line break to come is kept. -/
def quotedGap? (indent : Int) (joined : Bool) :
    (n : Nat) → (white : List Char) → (breaks : Nat) → Cursor → Option (List Char × Cursor)
  | 0, _, _, _ => none
  | n + 1, white, breaks, c =>
    let between := if joined then List.replicate breaks '\n' else folded white breaks
    match c.rest with
    | [] => some (between, c)
    | x :: _ =>
      if x == '\n' then quotedGap? indent joined n [] (breaks + 1) c.next
      else if !isWhite x then some (between, c)
      else if !joined && breaks == 0 then quotedGap? indent joined n (white ++ [x]) breaks c.next
      else if x == '\t' && decide ((c.column : Int) < indent) then none
      else quotedGap? indent joined n white breaks c.next

/-- The scalar that goes on after `text` up to the closing quote, over at most `n` words.
Its lines are indented to the column `indent`. -/
def quotedFrom? (quote : Char) (indent : Int) :
    (n : Nat) → (text : List Char) → Cursor → Option Scalar
  | 0, _, _ => none
  | n + 1, text, c =>
    if c.atDocumentMarker || c.rest.isEmpty || decide ((c.column : Int) < indent) then none
    else do
      let w ← quotedWordFrom? quote (c.rest.length + 1) text c
      if w.after.head? == some quote then some ⟨w.text, w.after.next⟩
      else
        let (between, c) ← quotedGap? indent w.joined (w.after.rest.length + 1) [] 0 w.after
        quotedFrom? quote indent n (w.text ++ between) c

/-- The quoted scalar whose opening quote stands at a cursor. -/
def quotedScalar? (quote : Char) (indent : Int) (c : Cursor) : Option Scalar :=
  quotedFrom? quote indent (c.rest.length + 1) [] c.next

/-! ## Block scalars -/

/-- What is done with the line breaks at the end of a block scalar. -/
inductive Chomping
  | strip
  | clip
  | keep
  deriving DecidableEq, Repr

/-- What stands behind the mark of a block scalar: what is done with line breaks, and the
indentation if it is given. -/
structure BlockHeader where
  chomping : Chomping := .clip
  indent? : Option Nat := none
  length : Nat := 0

/-- The chomping that a character stands for. -/
def chomping? (x : Char) : Option Chomping :=
  if x == '+' then some .keep else if x == '-' then some .strip else none

/-- The indentation that a digit stands for. -/
def indentDigit? (x : Char) : Option Nat :=
  if '1' ≤ x && x ≤ '9' then some (x.toNat - '0'.toNat) else none

/-- The header at the start of a text: the chomping and the indentation, each of which
may be missing, in any order.  The indentation is not zero. -/
def blockHeader? (s : List Char) : Option BlockHeader :=
  let chomp := s.head?.bind chomping?
  match chomp, s with
  | some m, _ :: d :: _ =>
    if isDigit d then (indentDigit? d).map fun n => ⟨m, some n, 2⟩ else some ⟨m, none, 1⟩
  | some m, _ => some ⟨m, none, 1⟩
  | none, d :: rest =>
    if isDigit d then
      (indentDigit? d).map fun n =>
        match rest.head?.bind chomping? with
        | some m => ⟨m, some n, 2⟩
        | none => ⟨.clip, some n, 1⟩
    else some {}
  | none, [] => some {}

/-- The cursor past empty lines and the indentation of the next line, of at most `width`
spaces; and the number of the lines more than `breaks`. -/
def skipIndent (width : Nat) : (n breaks : Nat) → Cursor → Nat × Cursor
  | 0, breaks, c => (breaks, c)
  | n + 1, breaks, c =>
    match c.rest with
    | [] => (breaks, c)
    | x :: _ =>
      if x == '\n' then skipIndent width n (breaks + 1) c.next
      else if x == ' ' && decide (c.column < width) then skipIndent width n breaks c.next
      else (breaks, c)

/-- The cursor past empty lines and the indentation of the next line; the number of the
lines, and the greatest number of spaces on any of them. -/
def findIndent : (n breaks width : Nat) → Cursor → Nat × Nat × Cursor
  | 0, breaks, width, c => (breaks, width, c)
  | n + 1, breaks, width, c =>
    match c.rest with
    | [] => (breaks, max width c.column, c)
    | x :: _ =>
      if x == '\n' then findIndent n (breaks + 1) (max width c.column) c.next
      else if x == ' ' then findIndent n breaks width c.next
      else (breaks, max width c.column, c)

/-- A block scalar up to some line: its text, whether a line break is due after it, the
number of empty lines since, and whether the last line starts with white space. -/
structure BlockText where
  text : List Char := []
  due : Bool := false
  breaks : Nat := 0
  white : Bool := false
  after : Cursor

/-- What comes between the lines so far and a line to come.  With `fill` lines are joined
to paragraphs, but lines that start with white space stay by themselves. -/
def BlockText.between (b : BlockText) (fill white : Bool) : List Char :=
  let empty := List.replicate b.breaks '\n'
  if fill && b.due && !b.white && !white then if b.breaks == 0 then [' '] else empty
  else (if b.due then ['\n'] else []) ++ empty

/-- The block scalar with the lines to come, at most `n`, that are indented by
`width`. -/
def blockLines (fill : Bool) (width : Nat) : (n : Nat) → BlockText → BlockText
  | 0, b => b
  | n + 1, b =>
    let c := b.after
    if c.column != width || c.rest.isEmpty || (width == 0 && c.atMarker '.') then b
    else
      let white := (c.head?.map isWhite).getD false
      let line := c.rest.takeWhile (· != '\n')
      let text := b.text ++ b.between fill white ++ line
      let past := c.advance line.length
      if past.rest.isEmpty then ⟨text, false, 0, white, past⟩
      else
        let (breaks, past) := skipIndent width (past.rest.length + 1) 0 past.next
        blockLines fill width n ⟨text, true, breaks, white, past⟩

/-- The text of a block scalar with its end chomped.  A last line that the text ends
within has a line break too. -/
def BlockText.chomped (b : BlockText) (chomping : Chomping) (width : Nat) : List Char :=
  let cut := b.after.rest.isEmpty && decide (max width 1 ≤ b.after.column)
  let ended := b.text ++ (if b.due then ['\n'] else []) ++ (if cut then ['\n'] else [])
  match chomping with
  | .strip => b.text
  | .clip => ended
  | .keep => ended ++ List.replicate b.breaks '\n'

/-- The text of a block scalar that has no lines, but some empty ones. -/
def emptyBlock (chomping : Chomping) (sameLine : Bool) (breaks : Nat) : List Char :=
  if sameLine then []
  else
    match chomping with
    | .strip => []
    | .clip => ['\n']
    | .keep => List.replicate (max breaks 1) '\n'

/-- The block scalar whose mark stands at a cursor, within a block of an indentation. -/
def blockScalar? (fill : Bool) (indent : Int) (start : Cursor) : Option Scalar := do
  let h ← blockHeader? start.rest.tail
  let past := (← (start.advance (1 + h.length)).space?).past
  if !past.atLineEnd then none
  else
    let c := past.next
    if c.head? == some '\t' then none
    else
      let n := c.rest.length + 1
      let (breaks, width, c) := match h.indent? with
        | some w =>
          let width := indent.toNat + w
          let (breaks, c) := skipIndent width n 0 c
          (breaks, width, c)
        | none =>
          let (breaks, width, c) := findIndent n 0 0 c
          (breaks, max width (indent + 1).toNat, c)
      if c.rest.isEmpty then
        some ⟨emptyBlock h.chomping (c.line == start.line) breaks, c⟩
      else if c.column < width && decide (indent < c.column) then none
      else
        let b := blockLines fill width n ⟨[], false, breaks, false, c⟩
        some ⟨b.chomped h.chomping width, b.after⟩

end Reshape.Yaml
