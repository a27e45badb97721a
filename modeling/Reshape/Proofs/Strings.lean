/-
# Strings and what comes behind them

Where the tokenizer arrives at a quote, it takes the row of items up to the closing quote and
goes on right behind it, or the text is no expression (`strings_are_read_by_their_grammar`).
The items are those of the grammar and, with them, the escapes by number that start with a plus
sign: `signed_escape_is_read` is a string that is accepted and should not be.
-/
import Reshape.Expression.Compiled
import Reshape.Proofs.Pieces

namespace Reshape.Expression

open Lexer
open Text.Utf8 (size)

namespace Lexer

variable {quote : Char} {s : List Char}

theorem lexeme_quote (hquote : quote ∈ ['"', '\'']) (offset : Nat) (s : List Char) :
    lexeme offset quote s = (stringBody quote offset (offset + 1) s).map
      fun r => ⟨some (.string (String.ofList r.1)), r.2 + 1⟩ := by
  have hlexeme : lexeme offset quote s = stringBody quote offset (offset + 1) s >>=
      fun r => pure ⟨some (.string (String.ofList r.1)), r.2 + 1⟩ := by
    simp only [List.mem_cons, List.not_mem_nil, or_false] at hquote
    rcases hquote with rfl | rfl <;> rfl
  rw [hlexeme]
  cases stringBody quote offset (offset + 1) s <;> rfl

/-- A quote starts a string exactly if a row of items and a closing quote come behind it. -/
theorem lexeme_quote_eq_ok_iff (hquote : quote ∈ ['"', '\'']) {offset : Nat} {l : Lexeme} :
    lexeme offset quote s = .ok l ↔
      ∃ w text rest, Row (Accepted quote) w text ∧ s = w ++ quote :: rest ∧
        l = ⟨some (.string (String.ofList text)), w.length + 2⟩ := by
  have hback : quote ≠ '\\' := by
    rintro rfl
    simp at hquote
  rw [lexeme_quote hquote]
  constructor
  · intro h
    cases hbody : stringBody quote offset (offset + 1) s with
    | error _ =>
      rw [hbody] at h
      cases h
    | ok r =>
      obtain ⟨text, n⟩ := r
      rw [hbody] at h
      cases h
      obtain ⟨w, rest, hw, hs, rfl⟩ := exists_row hbody
      exact ⟨w, text, rest, hw, hs, rfl⟩
  · rintro ⟨w, text, rest, hw, rfl, rfl⟩
    rw [stringBody_row hback hw]
    rfl

end Lexer

/-- A text that does not tokenize does not compile. -/
theorem compileTree_error {source : String} {f : Fault} (h : tokens source = .error f) :
    compileTree source = .error f := by
  rw [compileTree, parse, h]
  rfl

/-- **Strings are read by their grammar.**  Where whole lexemes lead up to a quote, the text from
there is a string exactly if a row of items and the same quote come behind it.  The string has
the characters of the items, and the tokens go on right behind the closing quote.  Every other
text is no expression. -/
theorem strings_are_read_by_their_grammar {quote : Char} (hquote : quote ∈ ['"', '\''])
    {source : String} {before s : List Char} {ts : List Located}
    (hsource : source.toList = before ++ quote :: s) (harrive : Pieces (quote :: s) 0 before ts) :
    (∀ {l}, lexeme (size before) quote s = .ok l ↔
      ∃ w text rest, Row (Accepted quote) w text ∧ s = w ++ quote :: rest ∧
        l = ⟨some (.string (String.ofList text)), w.length + 2⟩) ∧
    (∀ {w text rest}, Row (Accepted quote) w text → s = w ++ quote :: rest →
      tokens source = (tokensAt (size (before ++ quote :: (w ++ [quote]))) rest).map fun more =>
        ts ++ ⟨.string (String.ofList text), size before⟩ :: more) ∧
    ((¬ ∃ w text rest, Row (Accepted quote) w text ∧ s = w ++ quote :: rest) →
      ∃ f, tokens source = .error f ∧ compileTree source = .error f) := by
  have htokens : tokens source = (tokensAt (size before) (quote :: s)).map (ts ++ ·) := by
    rw [tokens_eq_tokensAt, hsource, tokensAt_append harrive, Nat.zero_add]
  refine ⟨lexeme_quote_eq_ok_iff hquote, ?_, ?_⟩
  · rintro w text rest hw rfl
    -- the string is one more piece behind those that lead up to it
    have hlexeme : lexeme (size before) quote (w ++ [quote] ++ rest) =
        .ok ⟨some (.string (String.ofList text)), w.length + 2⟩ := by
      rw [List.append_assoc]
      exact (lexeme_quote_eq_ok_iff hquote).2 ⟨w, text, rest, hw, rfl, rfl⟩
    have hpiece := tokensAt_piece hlexeme (by simp)
    have hs : quote :: (w ++ quote :: rest) = quote :: (w ++ [quote]) ++ rest := by simp
    rw [htokens, hs, hpiece, size_append]
    cases tokensAt (size before + size (quote :: (w ++ [quote]))) rest <;> rfl
  · intro hnone
    cases hl : lexeme (size before) quote s with
    | ok l =>
      obtain ⟨w, text, rest, hw, hs, -⟩ := (lexeme_quote_eq_ok_iff hquote).1 hl
      exact absurd ⟨w, text, rest, hw, hs⟩ hnone
    | error f =>
      have herror : tokens source = .error f := by
        rw [htokens, tokensAt, List.length_cons, tokensFrom_error _ hl]
        rfl
      exact ⟨f, herror, compileTree_error herror⟩

/-- A string with an escape by number between a name and an operator. -/
theorem escaped_letter_is_read :
    tokens "a&\"x\\u0041\"" = .ok [⟨.name "a", 0⟩, ⟨.symbol .ampersand, 1⟩, ⟨.string "xA", 2⟩,
      ⟨.done, 11⟩] := by
  have hsource : "a&\"x\\u0041\"".toList =
      ['a', '&'] ++ '"' :: ['x', '\\', 'u', '0', '0', '4', '1', '"'] := rfl
  have hname : Pieces (['&'] ++ '"' :: ['x', '\\', 'u', '0', '0', '4', '1', '"']) 0 ['a']
      [⟨.name "a", 0⟩] := .one (l := ⟨some (.name "a"), 1⟩) rfl rfl
  have hsymbol : Pieces ('"' :: ['x', '\\', 'u', '0', '0', '4', '1', '"']) (0 + size ['a']) ['&']
      [⟨.symbol .ampersand, 1⟩] := .one (l := ⟨some (.symbol .ampersand), 1⟩) rfl rfl
  have hescape : Row (Accepted '"') (['\\', 'u', '0', '0', '4', '1'] ++ []) ['A'] :=
    .cons (Or.inl (.number rfl)) .nil
  have hrow : Row (Accepted '"') (['x'] ++ ['\\', 'u', '0', '0', '4', '1']) ['x', 'A'] :=
    .cons (Or.inl (.plain (by decide) (by decide))) hescape
  have hstrings := strings_are_read_by_their_grammar (show '"' ∈ ['"', '\''] by decide) hsource
    (hname.append hsymbol)
  have hrest : ['x', '\\', 'u', '0', '0', '4', '1', '"'] =
      (['x'] ++ ['\\', 'u', '0', '0', '4', '1']) ++ '"' :: [] := rfl
  rw [hstrings.2.1 hrow hrest]
  rfl

/-- The four characters of an escape by number need not be digits: with a plus sign in front of
three of them the text is a string, though no row of items of the grammar is its inside. -/
theorem signed_escape_is_read :
    tokens "\"\\u+041\"" = .ok [⟨.string "A", 0⟩, ⟨.done, 8⟩] ∧
      (compileTree "\"\\u+041\"").isOk = true ∧
      ¬ ∃ w text rest, Row (Item '"') w text ∧
        ['\\', 'u', '+', '0', '4', '1', '"'] = w ++ '"' :: rest := by
  refine ⟨by rfl, by decide +kernel, ?_⟩
  rintro ⟨w, text, rest, hrow, hw⟩
  cases hrow with
  | nil => cases hw
  | cons hitem _ =>
    cases hitem with
    | plain _ hback => exact hback (List.cons.inj hw).1.symm
    | letter h =>
      simp only [List.cons_append, List.cons.injEq] at hw
      exact ne_u_of_mem h hw.2.1.symm
    | number h =>
      simp only [List.cons_append, List.cons.injEq] at hw
      obtain ⟨-, -, rfl, rfl, rfl, rfl, -⟩ := hw
      -- the plus sign is no digit
      cases h

end Reshape.Expression
