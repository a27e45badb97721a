/-
# Quoted names

A name in backticks can be any text without a backtick.  It is the same token as the bare
word, so no parser can tell the two apart, and a quoted name means what the word means
(`compileTree_quoted`).  For most texts that is the member of that name.  The words for
literals, for the operators `and` and `or` and for functions (`reservedWords`) keep their
meaning in backticks, and the members with these names are out of reach.
-/
import Mathlib.Tactic
import Reshape.Proofs.Sublanguage

namespace Reshape.Expression

/-- A name in backticks. -/
def quoted (x : String) : String := "`" ++ x ++ "`"

/-- The words that mean something other than a member of that name where they stand alone, as
operators or before a parenthesis. -/
def reservedWords : List String := ["true", "false", "null", "and", "or", "function"]

/-! ## The token -/

namespace Lexer

/-- The quoted name ends at the next backtick. -/
theorem quotedName?_append {cs : List Char} (h : '`' ∉ cs) (rest : List Char) :
    quotedName? (cs ++ '`' :: rest) = some cs := by
  induction cs with
  | nil => rfl
  | cons c cs ih =>
    simp only [List.mem_cons, not_or] at h
    rw [List.cons_append, quotedName?, if_neg (by simpa using Ne.symm h.1), ih h.2]
    rfl

/-- A quoted name is one lexeme, the token of the bare word, whatever comes behind it. -/
theorem lexeme_quoted {x : String} (h : '`' ∉ x.toList) (offset : Nat) (rest : List Char) :
    lexeme offset '`' (x.toList ++ '`' :: rest) =
      .ok ⟨some (.name x), x.toList.length + 2⟩ := by
  unfold lexeme
  rw [quotedName?_append h rest]
  simp only [String.ofList_toList]
  rfl

theorem lexes_quoted {x : String} (h : '`' ∉ x.toList) {rest : List Char} {ts : List Token}
    (hrest : Lexes rest ts) : Lexes ((quoted x).toList ++ rest) (.name x :: ts) := by
  have htext : (quoted x).toList ++ rest = '`' :: (x.toList ++ ['`']) ++ rest := by
    simp [quoted]
  rw [htext]
  refine Lexes.cons _ (fun offset => ?_) hrest
  rw [List.append_assoc, List.singleton_append, lexeme_quoted h offset rest]
  simp

end Lexer

/-! ## The tree -/

/-- A word that is not reserved denotes a member. -/
theorem Parser.nameOperand_eq {x : String} (h : x ∉ reservedWords) :
    nameOperand x = .field x := by
  simp only [reservedWords, List.mem_cons, List.not_mem_nil, or_false, not_or] at h
  simp [nameOperand, h]

/-- A word that is not reserved is no operator. -/
theorem Token.power_name {x : String} (h : x ∉ reservedWords) : (Token.name x).power = 0 := by
  simp only [reservedWords, List.mem_cons, List.not_mem_nil, or_false, not_or] at h
  simp [power, h]

namespace Parser

variable {expr : Nat → Parser Tree} {x : String} {t : Token} {ts : List Token}

/-- Where an operand is expected a name is one, unless it is the word of a function. -/
theorem takes_operand_name (h : x = "function" → t ≠ .symbol .openParen) :
    Takes (operand expr) (.name x :: t :: ts) (nameOperand x) (t :: ts) := by
  refine takes_take (List.cons_ne_nil _ _) fun p => ?_
  by_cases hx : x = "function"
  · subst hx
    refine takes_at? ?_
    rw [beq_eq_false_iff_ne.2 (h rfl)]
    exact takes_pure
  · show Takes (if x == "function" then _ else pure (nameOperand x)) _ _ _
    rw [if_neg (by simpa using hx)]
    exact takes_pure

end Parser

theorem arityFault?_nameOperand (x : String) : (Parser.nameOperand x).arityFault? = none := by
  unfold Parser.nameOperand
  split_ifs <;> rfl

/-- **A quoted name compiles to what the bare word does.** -/
theorem compileTree_quoted {x : String} (h : '`' ∉ x.toList) :
    compileTree (quoted x) = .ok (Parser.nameOperand x) := by
  have hlexes := Lexer.lexes_quoted h Lexer.lexes_nil
  rw [List.append_nil] at hlexes
  obtain ⟨ls, hls, htokens⟩ := hlexes _ 0 le_rfl
  have htaken : Parser.Takes (Parser.expression maxNesting 0) ([.name x] ++ [.done])
      (Parser.nameOperand x) [.done] :=
    Parser.takes_below (Parser.takes_operand_name fun _ => Token.noConfusion) (Nat.zero_le _)
  exact compileTree_of_takes hls htokens htaken (arityFault?_nameOperand x)

/-- **Quoted names are bare names.**  A text without backticks, in backticks, is the token of
the bare word whatever comes behind it, and the expression that consists of it alone is
that word.  If it is no reserved word, the expression yields the member of that name of every
object, and is undefined if there is none; a parser that expects an operand makes it a
member whatever comes next, and one that expects an operator finds none. -/
theorem quoted_names_are_bare_names {x : String} (hx : '`' ∉ x.toList) :
    (∀ offset rest, Lexer.lexeme offset '`' (x.toList ++ '`' :: rest) =
        .ok ⟨some (.name x), x.toList.length + 2⟩)
      ∧ compileTree (quoted x) = .ok (Parser.nameOperand x)
      ∧ (x ∉ reservedWords →
        compileTree (quoted x) = .ok (.field x)
          ∧ (∀ now members, evaluate ⟨.object members, now, true⟩ maxDepth (.field x) =
              .ok (Members.get? x members))
          ∧ (∀ expr t ts, Parser.Takes (Parser.operand expr) (.name x :: t :: ts) (.field x)
              (t :: ts))
          ∧ ∀ below power steps levels left ts,
              Parser.Takes (Parser.operationsFrom below power steps levels left) (.name x :: ts)
                left (.name x :: ts)) := by
  have hcompile := compileTree_quoted hx
  refine ⟨fun offset rest => Lexer.lexeme_quoted hx offset rest, hcompile, fun hword => ?_⟩
  have hfield := Parser.nameOperand_eq hword
  refine ⟨hfield ▸ hcompile, fun now members => rfl, fun expr t ts => ?_, ?_⟩
  · rw [← hfield]
    refine Parser.takes_operand_name fun hfunction => absurd hfunction ?_
    rintro rfl
    exact hword (by decide)
  · intro below power steps levels left ts
    refine Parser.takes_operationsFrom below ?_ steps levels left
    rw [Token.power_name hword]
    exact Nat.zero_le power

/-- A name with a blank, which cannot be written bare. -/
theorem quoted_first_name_is_a_member :
    '`' ∉ "first name".toList ∧ "first name" ∉ reservedWords
      ∧ compileTree "`first name`" = .ok (.field "first name") := by
  have hx : '`' ∉ "first name".toList := by decide
  have hword : "first name" ∉ reservedWords := by decide
  exact ⟨hx, hword, ((quoted_names_are_bare_names hx).2.2 hword).1⟩

/-- The member `true` of a document is out of reach: in backticks the word is the literal. -/
theorem quoted_true_is_the_literal :
    compileTree "`true`" = .ok (.literal (.bool true))
      ∧ ∀ now n, evaluate ⟨.object [("true", .number n)], now, true⟩ maxDepth
          (.literal (.bool true)) = .ok (some (.bool true))
        ∧ Members.get? "true" [("true", .number n)] = some (.number n) := by
  refine ⟨compileTree_quoted (x := "true") (by decide), fun now n => ⟨rfl, rfl⟩⟩

end Reshape.Expression
