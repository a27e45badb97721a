/-
# Blank characters

The 25 characters of the Unicode property `White_Space`.  Trimming removes them at
both ends of a text; the words of a text are its maximal runs of other characters.
-/
import Reshape.Text.Ranges

namespace Reshape.Text

/-! ## The class -/

/-- Code points with the property `White_Space`. -/
def blankRanges : Ranges :=
  [(9, 13), (32, 32), (133, 133), (160, 160), (5760, 5760), (8192, 8202), (8232, 8233),
   (8239, 8239), (8287, 8287), (12288, 12288)]

/-- A character that separates words and is trimmed at the ends of a text. -/
def isBlank (c : Char) : Bool := blankRanges.hasChar c

/-! ## Trimming -/

/-- The text without blank characters at its start. -/
def trimStart (s : List Char) : List Char := s.dropWhile isBlank

/-- The text without blank characters at its end. -/
def trimEnd (s : List Char) : List Char := (s.reverse.dropWhile isBlank).reverse

/-- The text without blank characters at either end. -/
def trim (s : List Char) : List Char := trimEnd (trimStart s)

/-- `trim` on strings. -/
def trimmed (s : String) : String := String.ofList (trim s.toList)

/-- A text with no characters other than blank ones. -/
def isBlankText (s : String) : Bool := s.toList.all isBlank

/-- The trimmed text, if it has a character. -/
def nonBlank? (s : String) : Option String :=
  let t := trimmed s
  if t.isEmpty then none else some t

/-! ## Words -/

/-- The words of `s`, where `word` holds the characters of the word under way, last
one first. -/
def wordsFrom (word : List Char) : List Char → List (List Char)
  | [] => if word.isEmpty then [] else [word.reverse]
  | c :: rest =>
    if isBlank c then
      if word.isEmpty then wordsFrom [] rest else word.reverse :: wordsFrom [] rest
    else wordsFrom (c :: word) rest

/-- The maximal runs of characters that are not blank. -/
def words (s : List Char) : List (List Char) := wordsFrom [] s

/-! ## Laws -/

/-- Trimming at the start leaves no blank character there. -/
theorem trimStart_head (s : List Char) : ∀ c ∈ (trimStart s).head?, isBlank c = false := by
  induction s with
  | nil => simp [trimStart]
  | cons c rest ih =>
    intro d hd
    by_cases h : isBlank c
    · exact ih d (by simpa [trimStart, List.dropWhile_cons, h] using hd)
    · simp only [trimStart, List.dropWhile_cons, h, Bool.false_eq_true, if_false,
        List.head?_cons, Option.mem_def, Option.some.injEq] at hd
      subst hd
      simpa using h

/-- Trimming at the start a second time changes nothing. -/
theorem trimStart_trimStart (s : List Char) : trimStart (trimStart s) = trimStart s := by
  have h := trimStart_head s
  generalize trimStart s = t at h
  cases t with
  | nil => rfl
  | cons c rest => simp [trimStart, h c (by simp)]

end Reshape.Text
