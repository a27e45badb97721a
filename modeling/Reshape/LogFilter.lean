/-
# Log filters

A filter is a list of directives, each of which sets a level for the targets, spans and
fields that it names.  The filter in force is the one of the first variable whose text
can be read.  Its text gives the directives from the most specific to the least.
-/
import Reshape.Binary64.Decimal
import Reshape.Binary64.Numeral
import Reshape.Text.Blank
import Reshape.Text.Numeral
import Reshape.Text.Search

namespace Reshape.LogFilter

open Text (natural?)

/-! ## Levels -/

/-- How much is logged. -/
inductive Level
  | off
  | error
  | warn
  | info
  | debug
  | trace
  deriving DecidableEq, Repr

namespace Level

/-- The name of a level. -/
def name : Level → String
  | off => "off"
  | error => "error"
  | warn => "warn"
  | info => "info"
  | debug => "debug"
  | trace => "trace"

/-- The levels from the least to the most. -/
def all : List Level := [off, error, warn, info, debug, trace]

/-- The level that a text gives by its number or by its name in any case. -/
def ofText? (s : List Char) : Option Level :=
  match (natural? s).bind fun n => all[n]? with
  | some l => some l
  | none => all.find? fun l => l.name.toList == s.map Binary64.lowerLetter

end Level

/-! ## Directives -/

/-- A field that is looked at, with the value that it must have. -/
structure FieldMatch where
  name : String
  value? : Option String
  deriving DecidableEq, Repr

/-- A level for what is named. -/
structure Directive where
  level : Level := .trace
  target? : Option String := none
  span? : Option String := none
  fields : List FieldMatch := []
  deriving DecidableEq, Repr

/-- The value that a field must have, as it is shown: numbers in their plain form. -/
def shownValue (s : List Char) : String :=
  match Text.integer? s with
  | some n =>
    if Word.minInt64 ≤ n ∧ n ≤ Word.maxUInt64 then toString n else (Binary64.ofInt n).plainText
  | none =>
    match Binary64.ofText? s with
    | some x => x.plainText
    | none => String.ofList s

namespace FieldMatch

/-- The field that a text describes: a name, and a value behind an equals sign. -/
def ofText (s : List Char) : FieldMatch :=
  match Text.split ['='] s with
  | name :: value :: _ => ⟨String.ofList name, some (shownValue value)⟩
  | [name] => ⟨String.ofList name, none⟩
  | [] => ⟨"", none⟩

/-- The text of the field. -/
def text (f : FieldMatch) : String :=
  match f.value? with
  | some v => f.name ++ "=" ++ v
  | none => f.name

end FieldMatch

namespace Directive

/-! ## Reading -/

/-- The level behind an equals sign; without one everything is logged. -/
def level? (s : List Char) : Option Level := if s.isEmpty then some .trace else Level.ofText? s

/-- The directive of a text that is a level, or else a target of which everything is
logged. -/
def ofWord (s : List Char) : Directive :=
  match Level.ofText? s with
  | some l => { level := l }
  | none => { target? := some (String.ofList s) }

/-- The text between brackets is the name of a span, and a field may follow in braces. -/
def withSpan? (d : Directive) (s : List Char) : Option (Directive × List Char) :=
  let name := s.takeWhile fun c => c != ']' && c != '\x7b'
  match s.drop name.length with
  | ']' :: rest => some ({ d with span? := some (String.ofList name) }, rest)
  | '\x7b' :: rest =>
    let field := rest.takeWhile (· != '\x7d')
    match rest.drop field.length with
    | '\x7d' :: ']' :: rest =>
      if field.isEmpty then none
      else
        let span? := if name.isEmpty then none else some (String.ofList name)
        some ({ d with span? := span?, fields := [.ofText field] }, rest)
    | _ => none
  | _ => none

/-- The directive with what follows its span: nothing, or a level behind an equals
sign. -/
def withLevel? (d : Directive) (s : List Char) : Option Directive :=
  match s with
  | [] => some d
  | '=' :: rest => (level? rest).map fun l => { d with level := l }
  | _ => none

/-- A target or a level may start with this character. -/
def startsWord (c : Char) : Bool :=
  c == '-' || c == ':' || c == '_' || Text.isNamePart c

/-- The directive that a text describes. -/
def ofText? (s : List Char) : Option Directive :=
  match s with
  | [] => none
  | '[' :: rest => do
    let (d, rest) ← withSpan? {} rest
    d.withLevel? rest
  | c :: _ =>
    if !startsWord c then none
    else
      let word := s.takeWhile fun c => c != '=' && c != '['
      let named : Directive := { target? := some (String.ofList word) }
      match s.drop word.length with
      | '=' :: rest => (level? rest).map fun l => { named with level := l }
      | '[' :: rest => do
        let (d, rest) ← named.withSpan? rest
        d.withLevel? rest
      | _ => some (ofWord word)

/-! ## Writing -/

/-- The text of a directive. -/
def text (d : Directive) : String :=
  let fields := ",".intercalate (d.fields.map FieldMatch.text)
  let braced := if d.fields.isEmpty then "" else "\x7b" ++ fields ++ "\x7d"
  let bracketed :=
    if d.span?.isNone && d.fields.isEmpty then "" else "[" ++ d.span?.getD "" ++ braced ++ "]"
  let named := d.target?.getD "" ++ bracketed
  if d.target?.isNone && bracketed.isEmpty then d.level.name else named ++ "=" ++ d.level.name

/-! ## Order -/

/-- What makes a directive specific, the weightiest first: the length of the target,
whether there is a span, the number of fields; then the texts. -/
def rank (d : Directive) : List Nat :=
  [(d.target?.map fun t => t.utf8ByteSize + 1).getD 0, if d.span?.isSome then 1 else 0,
   d.fields.length]

/-- The texts that tell directives of one rank apart; a field with a value comes above
one without. -/
def texts (d : Directive) : List String :=
  [d.target?.getD "", d.span?.getD ""] ++ d.fields.flatMap fun f =>
    [if f.value?.isSome then "1" else "0", f.name, f.value?.getD ""]

/-- The first directive is more specific. -/
def above (a b : Directive) : Bool :=
  decide (b.rank < a.rank) || (a.rank == b.rank && decide (b.texts < a.texts))

/-- The directives with one more at its place; it replaces one for the same things. -/
def insert (d : Directive) : List Directive → List Directive
  | [] => [d]
  | e :: rest =>
    if d.above e then d :: e :: rest
    else if e.above d then e :: insert d rest
    else d :: rest

/-- A directive that can be judged without looking into spans: it names no span and no
value of a field. -/
def isStatic (d : Directive) : Bool := d.span?.isNone && d.fields.all fun f => f.value?.isNone

/-- A directive that needs spans to be looked into. -/
def isDynamic (d : Directive) : Bool := d.span?.isSome || !d.fields.isEmpty

end Directive

/-! ## Filters -/

/-- The directives of a text, which are separated by commas. -/
def directives? (s : List Char) : Option (List Directive) :=
  ((Text.split [','] s).filter (!·.isEmpty)).mapM Directive.ofText?

/-- The text of the filter that directives make up: those that are judged without spans
come first. -/
def filterText (ds : List Directive) : String :=
  let place (ds : List Directive) : List Directive := ds.foldl (fun ds d => d.insert ds) []
  let statics := place ((ds.filter fun d => d.isStatic && !d.isDynamic)
    ++ ds.filter fun d => d.isStatic && d.isDynamic)
  let dynamics := place (ds.filter Directive.isDynamic)
  ",".intercalate ((statics ++ dynamics).map Directive.text)

/-- The text of the filter in force, given the texts that may hold one in order of
preference; a variable whose text cannot be read counts for nothing. -/
def chosen (texts : List (Option String)) : String :=
  let read (v? : Option String) : Option (List Directive) :=
    v?.bind fun s => directives? s.toList
  filterText ((texts.findSome? read).getD [{ level := .info }])

end Reshape.LogFilter
