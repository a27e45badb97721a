/-
# Upper and lower case

The full case maps of Unicode: a character may become several.  Lower-casing looks
at the neighbours of a capital sigma, which is written differently at the end of a
word.
-/
import Reshape.Text.Table.CaseMap
import Reshape.Text.Table.Cased

namespace Reshape.Text

/-! ## Single characters -/

/-- The image of the code point `n` under a list of runs, if one of them has it. -/
def runImage? : List Table.CaseRun → Nat → Option Nat
  | [], _ => none
  | r :: rest, n =>
    if n < r.first then none
    else if n ≤ r.last && (n - r.first) % r.stride == 0 then some ((n : Int) + r.shift).toNat
    else runImage? rest n

/-- The image of a character under a case map given by its runs and its exceptions. -/
def caseImage (runs : List Table.CaseRun) (long : List (Nat × List Nat)) (c : Char) :
    List Char :=
  match runImage? runs c.toNat with
  | some n => [Char.ofNat n]
  | none =>
    match long.lookup c.toNat with
    | some ns => ns.map Char.ofNat
    | none => [c]

/-- The upper case of one character. -/
def upperChar (c : Char) : List Char := caseImage Table.upperRuns Table.upperLong c

/-- The lower case of one character, away from any neighbours. -/
def lowerChar (c : Char) : List Char := caseImage Table.lowerRuns Table.lowerLong c

/-! ## Texts -/

/-- The first character that case does not ignore is cased. -/
def startsCased (s : List Char) : Bool :=
  match s.dropWhile Table.caseIgnorable.hasChar with
  | c :: _ => Table.cased.hasChar c
  | [] => false

/-- A sigma between the texts `before` (last character first) and `after` ends a word. -/
def endsWord (before after : List Char) : Bool := startsCased before && !startsCased after

/-- The lower case of `s`, where `before` holds the characters before it, last one
first. -/
def lowerFrom (before : List Char) : List Char → List Char
  | [] => []
  | c :: rest =>
    (if c == 'Σ' then (if endsWord before rest then ['ς'] else ['σ']) else lowerChar c)
      ++ lowerFrom (c :: before) rest

/-- The upper case of a text. -/
def upper (s : String) : String := String.ofList (s.toList.flatMap upperChar)

/-- The lower case of a text. -/
def lower (s : String) : String := String.ofList (lowerFrom [] s.toList)

end Reshape.Text
