/-
# YAML tokens

A text is cut into tokens before its nodes are read.  Marks of blocks are not written but
follow from the columns in which entries stand.  Whether something is a key is known only
at the colon behind it, so that the token for a key is put in front of it then.
-/
import Reshape.Yaml.Scalar
import Reshape.Yaml.Tag

namespace Reshape.Yaml

/-- A token: marks of documents, collections and entries, and the parts of nodes. -/
inductive Token
  | directive (d : Directive)
  | documentStart
  | documentEnd
  | blockSequence
  | blockMapping
  | blockEnd
  | flowSequence
  | flowSequenceEnd
  | flowMapping
  | flowMappingEnd
  | blockEntry
  | flowEntry
  | key
  | value
  | alias (name : String)
  | anchor (name : String)
  | tag (t : Tag)
  | scalar (plain : Bool) (text : String)
  deriving DecidableEq, Repr

/-! ## Scans -/

/-- What may turn out to be a key: the number of tokens before it, where it stands, and
whether it has to be one. -/
structure Candidate where
  tokens : Nat
  line : Nat
  column : Nat
  offset : Nat
  required : Bool

/-- An indentation that was entered: the one outside of it, and whether a block has
it. -/
structure Indent where
  outer : Int
  block : Bool

/-- A text that is cut up to a place.  Brackets that are open there have a candidate
each. -/
structure Scan where
  place : Cursor
  tokens : Array Token := #[]
  /-- A key may begin at the place. -/
  keyAllowed : Bool := true
  candidate? : Option Candidate := none
  brackets : List (Option Candidate) := []
  indent : Int := -1
  indents : List Indent := []
  /-- A mapping between brackets has been begun by a mark. -/
  marked : Bool := false
  /-- The entry of brackets is a mapping of a single pair. -/
  paired : Bool := false
  /-- The offset at which a colon needs nothing behind it. -/
  closedAt : Nat := 0

namespace Scan

/-- The place is between brackets. -/
def flow (s : Scan) : Bool := !s.brackets.isEmpty

/-- The scan with a token more. -/
def push (s : Scan) (t : Token) : Scan := { s with tokens := s.tokens.push t }

/-- The scan with a token more, with `n` tokens before it. -/
def insert (s : Scan) (n : Nat) (t : Token) : Scan :=
  { s with tokens := s.tokens.insertIdxIfInBounds n t }

/-! ## Indentation -/

/-- The indentations left for a column, and the tokens with an end for each block among
them. -/
def leave (column : Int) : (indent : Int) → List Indent → Array Token →
    Int × List Indent × Array Token
  | indent, [], ts => (indent, [], ts)
  | indent, i :: rest, ts =>
    if column < indent then leave column i.outer rest (if i.block then ts.push .blockEnd else ts)
    else (indent, i :: rest, ts)

/-- The scan with every block left that is indented more than a column. -/
def leaveTo (column : Int) (s : Scan) : Scan :=
  if s.flow then s
  else
    let (indent, indents, tokens) := leave column s.indent s.indents s.tokens
    { s with indent := indent, indents := indents, tokens := tokens }

/-- The indentations up to the next that a block has. -/
def ofBlock : (indent : Int) → List Indent → Int × List Indent
  | indent, [] => (indent, [])
  | indent, i :: rest => if i.block then (indent, i :: rest) else ofBlock i.outer rest

/-- The scan with the indentation of the innermost block. -/
def toBlock (s : Scan) : Scan :=
  let (indent, indents) := ofBlock s.indent s.indents
  { s with indent := indent, indents := indents }

/-- The innermost indentation is that of a block. -/
def inOwnBlock (s : Scan) : Bool := (s.indents.head?.map (·.block)).getD false

/-- The scan with lines that go on indented by one column more than their block. -/
def indentMore (s : Scan) : Scan :=
  if s.flow || !s.inOwnBlock then s
  else { s with indent := s.indent + 1, indents := ⟨s.indent, false⟩ :: s.indents }

/-- The scan with a block begun in a column, if that is indented more; its token gets `n`
tokens before it. -/
def enter (s : Scan) (column n : Nat) (t : Token) : Scan :=
  if s.flow then s
  else
    let s := match s.indents with
      | i :: rest =>
        let left := { s with indent := i.outer, indents := rest }
        if s.indent ≤ (column : Int) && !i.block then left else s
      | [] => s
    if s.indent < (column : Int) then
      insert { s with indent := column, indents := ⟨s.indent, true⟩ :: s.indents } n t
    else s

/-! ## Candidates -/

/-- The scan with what stands at the place as a candidate, where a key may begin. -/
def propose (s : Scan) : Scan :=
  if !s.keyAllowed then s
  else
    let c := s.place
    let required := !s.flow && s.indent == c.column && s.inOwnBlock
    { s with candidate? := some ⟨s.tokens.size, c.line, c.column, c.offset, required⟩ }

/-- The scan without its candidate, which must not be required. -/
def drop? (s : Scan) : Option Scan :=
  if (s.candidate?.map (·.required)).getD false then none else some { s with candidate? := none }

/-- The scan without a candidate that stands too far back: on another line or more than
1024 characters before the place. -/
def dropStale? (s : Scan) : Option Scan :=
  match s.candidate? with
  | some k =>
    if !s.flow && (k.line < s.place.line || k.offset + 1024 < s.place.offset) then s.drop?
    else some s
  | none => some s

/-! ## Moving on -/

/-- The scan at another place. -/
def moved (s : Scan) (c : Cursor) : Scan := { s with place := c }

/-- The scan past space on the line. -/
def pastSpace? (s : Scan) : Option Scan := s.place.space?.map fun space => s.moved space.past

/-- The scan past the gap at its place.  Outside of brackets a key may begin on a new
line. -/
def pastGap? (s : Scan) : Option Scan :=
  (s.place.gap? (!s.indents.isEmpty) s.indent).map fun g =>
    { s with place := g.past, keyAllowed := s.keyAllowed || (g.crossed && !s.flow) }

/-! ## Directives and markers -/

/-- The scan past the directive at its place. -/
def directiveToken? (s : Scan) : Option Scan := do
  let s ← (s.leaveTo (-1)).drop?
  let c := s.place.next
  let name := c.rest.takeWhile isWordChar
  let c := c.advance name.length
  if name.isEmpty || !endsToken c.rest then none
  else
    let (d, rest) ← directive? name c.rest
    let c := (← (c.upTo rest).space?).past
    if c.atLineEnd then
      return { s with keyAllowed := false, place := c.next }.push (.directive d)
    else none

/-- The scan past the marker of a document at its place. -/
def marker? (t : Token) (s : Scan) : Option Scan := do
  let s ← (s.leaveTo (-1)).drop?
  return { s with keyAllowed := false, place := s.place.advance 3 }.push t

/-- The scan past the marker of the end of a document, which stands by itself. -/
def endMarker? (s : Scan) : Option Scan := do
  let s ← (← s.marker? .documentEnd).pastSpace?
  if s.place.atLineEnd then some s else none

/-! ## Collections -/

/-- The scan past an opening bracket. -/
def openBracket? (t : Token) (s : Scan) : Option Scan := do
  let s := s.propose.indentMore
  let s := { s with
    brackets := s.candidate? :: s.brackets, candidate? := none, keyAllowed := true,
    place := s.place.next, marked := s.marked || t == Token.flowMapping }
  return (← s.pastSpace?).push t

/-- The scan with a mapping of a single pair ended. -/
def endPair (s : Scan) : Scan :=
  if s.paired then { s with paired := false, marked := false }.push .flowMappingEnd else s

/-- The scan past a closing bracket. -/
def closeBracket? (t : Token) (s : Scan) : Option Scan := do
  let s ← s.drop?
  let s := match s.brackets with
    | outer :: rest => { s with candidate? := outer, brackets := rest }
    | [] => s
  let s := { s with keyAllowed := false }.endPair
  let s ← (s.moved s.place.next).pastSpace?
  return { s with closedAt := if s.flow then s.place.offset else s.closedAt }.push t

/-- The scan past a comma between brackets. -/
def comma? (s : Scan) : Option Scan := do
  let s := { (← s.drop?) with keyAllowed := true }.endPair
  return (← (s.moved s.place.next).pastSpace?).push .flowEntry

/-- The scan past the mark of an item of a block. -/
def item? (s : Scan) : Option Scan :=
  if s.flow || !s.keyAllowed then none
  else do
    let column := s.place.column
    let s := (s.moved s.place.next).enter column s.tokens.size .blockSequence
    let space ← s.place.space?
    let s := s.moved space.past
    if space.tabs && s.place.head? == some '-' && endsToken s.place.rest.tail then none
    else
      let opens := s.place.head? == some '\n' || startsFlow s.place.rest
      let s ← (if opens then s.indentMore else s).drop?
      return { s with keyAllowed := true }.push .blockEntry

/-- The scan past white space without tabs, line breaks and comments, and whether any
white space was there; at most `n` pieces are passed. -/
def pastSpaces : (n : Nat) → (found : Bool) → Scan → Bool × Scan
  | 0, found, s => (found, s)
  | n + 1, found, s =>
    match s.place.head? with
    | some ' ' => pastSpaces n true (s.moved s.place.next)
    | some '\n' =>
      pastSpaces n true { s with place := s.place.next, keyAllowed := s.keyAllowed || !s.flow }
    | some '#' => pastSpaces n found (s.moved s.place.toLineEnd)
    | _ => (found, s)

/-- The scan past a question mark, which a key follows. -/
def keyMark? (s : Scan) : Option Scan :=
  if !s.flow && !s.keyAllowed then none
  else do
    let s := if s.flow then { s with marked := true }
      else s.enter s.place.column s.tokens.size .blockMapping
    let s ← s.drop?
    let s := { s with keyAllowed := !s.flow }
    let (found, s) := pastSpaces s.place.rest.length false (s.moved s.place.next)
    if !found || s.place.head? == some '\t' then none else return s.push .key

/-- The scan past a colon with the space behind it; a word must not be set off by tabs
alone. -/
def pastColon? (s : Scan) : Option Scan :=
  let s := s.moved s.place.next
  if s.place.head? == some '\t' then
    s.place.space?.bind fun space =>
      let word := (space.past.head?.map isWordChar).getD false
      if !space.spaces && word then none else some (s.moved space.past)
  else some s

/-- The scan past the colon between a key and its value. -/
def valueMark? (s : Scan) : Option Scan := do
  let start := s.place
  let paired := s.flow && !s.marked
  let s ← { s with paired := paired }.pastColon?
  match s.candidate? with
  | some k =>
    if paired && k.line < start.line then none
    else
      let s := s.insert k.tokens .key
      let s := if paired then s.insert k.tokens .flowMapping else s
      let s := (s.enter k.column k.tokens .blockMapping).indentMore
      return { s with candidate? := none, keyAllowed := false }.push .value
  | none =>
    let s := if paired then s.push .flowMapping else s
    if !s.flow && !s.keyAllowed then none
    else
      let s := (s.enter start.column s.tokens.size .blockMapping).indentMore
      return { s with keyAllowed := !s.flow }.push .value

/-! ## Parts of nodes -/

/-- A character of the name of a node. -/
def isNameChar (c : Char) : Bool :=
  !(isWhite c || c == '\n' || c.toNat == 0xFEFF || isFlowIndicator c)

/-- The scan past the name of a node. -/
def name? (token : String → Token) (s : Scan) : Option Scan :=
  let s := { s.propose with keyAllowed := false }
  let c := s.place.next
  let name := c.rest.takeWhile isNameChar
  if name.isEmpty then none
  else some ((s.moved (c.advance name.length)).push (token (String.ofList name)))

/-- The scan past a tag. -/
def tagToken? (s : Scan) : Option Scan := do
  let s := { s.propose with keyAllowed := false }
  let (t, rest) ← tag? s.place.rest
  if endsToken rest || (s.flow && startsFlow rest) then
    return (s.moved (s.place.upTo rest)).push (.tag t)
  else none

/-- The scan past a block scalar. -/
def block? (fill : Bool) (s : Scan) : Option Scan := do
  let s := { s.propose with keyAllowed := true }.toBlock
  let scalar ← blockScalar? fill s.indent s.place
  return (s.moved scalar.after).push (.scalar false (String.ofList scalar.text))

/-- What may follow a quoted scalar on its line: the end of the line, the colon of a key,
or an indicator between brackets.  Outside of brackets a key is written on one line. -/
def followsQuoted (s : Scan) (startLine : Nat) (c : Cursor) : Bool :=
  c.atLineEnd
    || (s.flow && (c.head? == some ',' || c.head? == some ']' || c.head? == some '\x7d'))
    || (c.head? == some ':' && (s.flow || c.line == startLine))

/-- The scan past a quoted scalar and the gap behind it, where a colon needs nothing
behind it. -/
def quoted? (quote : Char) (s : Scan) : Option Scan := do
  let s := { s.propose with keyAllowed := false }
  let scalar ← quotedScalar? quote s.indent s.place
  let past := (← scalar.after.space?).past
  if !s.followsQuoted s.place.line past then none
  else
    let s ← (s.moved past).pastGap?
    return { s with closedAt := s.place.offset }.push (.scalar false (String.ofList scalar.text))

/-- The scan past a plain scalar. -/
def plain? (s : Scan) : Option Scan := do
  let s := { s.propose with keyAllowed := false }.toBlock
  let scalar ← plainScalar? s.flow (s.indent + 1) s.place
  return { s with place := scalar.after, keyAllowed := scalar.after.fresh }.push
    (.scalar true (String.ofList scalar.text))

/-! ## Texts -/

/-- The colon at the start of a text is a mark. -/
def atColon (s : Scan) (rest : List Char) : Bool :=
  endsToken rest || (s.flow && (startsFlow rest || s.place.offset == s.closedAt))

/-- The scan past what begins with a character. -/
def tokenOf? (s : Scan) (x : Char) (rest : List Char) : Option Scan :=
  if x == '[' then s.openBracket? .flowSequence
  else if x == '\x7b' then s.openBracket? .flowMapping
  else if x == ']' then s.closeBracket? .flowSequenceEnd
  else if x == '\x7d' then s.closeBracket? .flowMappingEnd
  else if x == ',' then s.comma?
  else if x == '-' && endsToken rest then s.item?
  else if x == '?' && endsToken rest then s.keyMark?
  else if x == ':' && s.atColon rest then s.valueMark?
  else if x == '*' then s.name? .alias
  else if x == '&' then s.name? .anchor
  else if x == '!' then s.tagToken?
  else if x == '|' && !s.flow then s.block? false
  else if x == '>' && !s.flow then s.block? true
  else if x == '\'' || x == '"' then s.quoted? x
  else if x == '%' || x == '@' || x.toNat == 0x60 then none
  else s.plain?

/-- The scan past the next token. -/
def token? (s : Scan) : Option Scan :=
  let c := s.place
  if c.column == 0 && c.head? == some '%' then s.directiveToken?
  else if c.atMarker '-' then s.marker? .documentStart
  else if c.atMarker '.' then s.endMarker?
  else if (c.column : Int) < s.indent then none
  else
    match c.rest with
    | [] => some s
    | x :: rest => s.tokenOf? x rest

/-- The scan at the next token: past the gap, with the blocks left that end there. -/
def atToken? (s : Scan) : Option Scan := do
  let s ← (← s.pastGap?).dropStale?
  return s.leaveTo s.place.column

/-- No candidate of open brackets or outside of them is required. -/
def settled (s : Scan) : Bool :=
  (s.candidate? :: s.brackets).all fun k? => !(k?.map (·.required)).getD false

/-- The tokens of the scan and of the text to come, at most `n`. -/
def tokensFrom? : (n : Nat) → Scan → Option (List Token)
  | 0, _ => none
  | n + 1, s => do
    let s ← s.atToken?
    if s.place.rest.isEmpty then
      if s.settled then some (s.leaveTo (-1)).tokens.toList else none
    else tokensFrom? n (← s.token?)

end Scan

/-- The tokens of a text. -/
def tokens? (text : List Char) : Option (List Token) :=
  Scan.tokensFrom? (text.length + 1) { place := Cursor.start text }

end Reshape.Yaml
