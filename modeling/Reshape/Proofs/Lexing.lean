/-
# The tokens of a document

The compact text of a document is also a row of tokens of the expression language: words are
names, strings with their escapes are strings, and a negative number is a minus sign and a
number.  The text is cut into pieces that stand for one token each, whatever token comes next
(`Lexes.cons`), and along the document the pieces add up to its row of tokens
(`lexes_write`).

Only a word and a number could go on with what comes behind them, so what comes behind a
document is a comma, a closing bracket, or nothing (`Follows`).
-/
import Reshape.Expression.Compiled
import Reshape.Proofs.Documents
import Reshape.Proofs.Rereading

namespace Reshape

/-! ## Documents of exact numbers -/

mutual

/-- Every number of the document is a whole number below 2⁵³, without its sign. -/
def Json.Exact : Json → Prop
  | .null | .bool _ | .string _ => True
  | .number n => ∃ k, n.whole? = some k ∧ k.natAbs < Number.exactLimit
  | .array items => Json.ExactItems items
  | .object members => Json.ExactMembers members

/-- Every number of the items is exact. -/
def Json.ExactItems : List Json → Prop
  | [] => True
  | v :: rest => v.Exact ∧ Json.ExactItems rest

/-- Every number of the member values is exact. -/
def Json.ExactMembers : List (String × Json) → Prop
  | [] => True
  | (_, v) :: rest => v.Exact ∧ Json.ExactMembers rest

end

namespace Json

theorem exactItems_iff {items : List Json} : ExactItems items ↔ ∀ v ∈ items, v.Exact := by
  induction items with
  | nil => simp [ExactItems]
  | cons v rest ih => rw [ExactItems, ih, List.forall_mem_cons]

theorem exactMembers_iff {members : List (String × Json)} :
    ExactMembers members ↔ ∀ m ∈ members, m.2.Exact := by
  induction members with
  | nil => simp [ExactMembers]
  | cons m rest ih => rw [ExactMembers, ih, List.forall_mem_cons]

end Json

namespace Expression

open Json (escaped hexDigit write writeString writeItems writeMembers)
open Text (Ends isDigit isNamePart)

/-! ## Rows of tokens -/

/-- The double that a row of digits stands for. -/
def Token.whole (n : Nat) : Token := .number (Decimal.toBinary64 false ⟨n, 0⟩)

/-- The tokens of an integer. -/
def Token.integer (n : Int) : List Token :=
  (if n < 0 then [.symbol .minus] else []) ++ [Token.whole n.natAbs]

mutual

/-- The tokens of the text of a document. -/
def Token.row : Json → List Token
  | .null => [.name "null"]
  | .bool b => [.name (if b then "true" else "false")]
  | .number n => Token.integer (n.whole?.getD 0)
  | .string s => [.string s]
  | .array [] => [.symbol .openBracket, .symbol .closeBracket]
  | .array (v :: rest) => .symbol .openBracket :: (Token.row v ++ Token.rowItems rest)
  | .object [] => [.symbol .openBrace, .symbol .closeBrace]
  | .object ((k, v) :: rest) =>
    .symbol .openBrace :: .string k :: .symbol .colon :: (Token.row v ++ Token.rowMembers rest)

/-- The tokens of the items after the first one. -/
def Token.rowItems : List Json → List Token
  | [] => [.symbol .closeBracket]
  | v :: rest => .symbol .comma :: (Token.row v ++ Token.rowItems rest)

/-- The tokens of the members after the first one. -/
def Token.rowMembers : List (String × Json) → List Token
  | [] => [.symbol .closeBrace]
  | (k, v) :: rest =>
    .symbol .comma :: .string k :: .symbol .colon :: (Token.row v ++ Token.rowMembers rest)

end

namespace Lexer

/-- The text is cut into these tokens and the end mark, wherever it starts. -/
def Lexes (s : List Char) (ts : List Token) : Prop :=
  ∀ steps offset, s.length ≤ steps →
    ∃ ls, tokensFrom steps offset s = .ok ls ∧ ls.map Located.token = ts ++ [.done]

theorem lexes_nil : Lexes [] [] := by
  intro steps offset _
  cases steps <;> exact ⟨_, rfl, rfl⟩

/-- A piece of the text that stands for a token, and what comes behind it. -/
theorem Lexes.cons {c : Char} (piece : List Char) {rest : List Char} {t : Token}
    {ts : List Token}
    (hpiece : ∀ offset, lexeme offset c (piece ++ rest) = .ok ⟨some t, (c :: piece).length⟩)
    (hrest : Lexes rest ts) : Lexes (c :: piece ++ rest) (t :: ts) := by
  intro steps offset hsteps
  obtain ⟨steps, rfl⟩ : ∃ k, steps = k + 1 := ⟨steps - 1, by simp at hsteps; omega⟩
  have hdrop : (c :: (piece ++ rest)).drop (c :: piece).length = rest := by
    rw [← List.cons_append, List.drop_left]
  obtain ⟨ls, hls, htokens⟩ := hrest steps
    (offset + Text.Utf8.size ((c :: (piece ++ rest)).take (c :: piece).length))
    (by simp at hsteps; omega)
  refine ⟨⟨t, offset⟩ :: ls, ?_, by rw [List.map_cons, htokens]; rfl⟩
  rw [List.cons_append, tokensFrom, hpiece offset]
  simp only [bind, Except.bind, hdrop, hls]
  rfl

/-! ## Lexemes -/

/-- A symbol of one character that no longer one starts with. -/
theorem lexeme_symbol {c : Char} {o : Symbol}
    (h : (c, o) ∈ [('[', Symbol.openBracket), (']', .closeBracket), ('\x7b', .openBrace),
      ('\x7d', .closeBrace), (',', .comma), ('-', .minus)]) (rest : List Char) (offset : Nat) :
    lexeme offset c rest = .ok ⟨some (.symbol o), 1⟩ := by
  simp only [List.mem_cons, Prod.mk.injEq, List.not_mem_nil, or_false] at h
  rcases h with ⟨rfl, rfl⟩ | ⟨rfl, rfl⟩ | ⟨rfl, rfl⟩ | ⟨rfl, rfl⟩ | ⟨rfl, rfl⟩ | ⟨rfl, rfl⟩ <;> rfl

theorem lexeme_colon {rest : List Char} (h : rest.head? ≠ some '=') (offset : Nat) :
    lexeme offset ':' rest = .ok ⟨some (.symbol .colon), 1⟩ := by
  have hstart : Symbol.atStart? (':' :: rest) = some .colon := by
    cases rest with
    | nil => rfl
    | cons d rest =>
      have hd : ('=' == d) = false := by
        rw [beq_eq_false_iff_ne]
        rintro rfl
        exact h rfl
      simp [Symbol.atStart?, Symbol.all, Symbol.chars, List.find?, List.isPrefixOf, hd]
  unfold lexeme
  rw [hstart]
  rfl

/-- A digit starts a number. -/
theorem lexeme_digit {c : Char} (hc : isDigit c = true) (rest : List Char) (offset : Nat) :
    lexeme offset c rest = .ok (number (c :: rest)) := by
  have hdigits : c ∈ ['0', '1', '2', '3', '4', '5', '6', '7', '8', '9'] := by
    have hrange : '0' ≤ c ∧ c ≤ '9' := by simpa [isDigit] using hc
    have hlo : 48 ≤ c.toNat := hrange.1
    have hhi : c.toNat ≤ 57 := hrange.2
    rw [← Char.ofNat_toNat c]
    generalize c.toNat = n at hlo hhi
    interval_cases n <;> decide
  simp only [List.mem_cons, List.not_mem_nil, or_false] at hdigits
  rcases hdigits with rfl | rfl | rfl | rfl | rfl | rfl | rfl | rfl | rfl | rfl <;> rfl

/-- The number that a row of digits stands for ends with the row. -/
theorem number_digits {ds rest : List Char} (hds : ∀ c ∈ ds, isDigit c = true)
    (hrest : Json.Reader.NumberEnds rest) :
    number (ds ++ rest) = ⟨some (Token.whole (Text.decimal ds)), ds.length⟩ := by
  have hwhole : (ds ++ rest).takeWhile isDigit = ds := Text.takeWhile_append hds hrest.digits
  have hfraction : fraction rest = [] := by
    cases rest with
    | nil => rfl
    | cons c rest =>
      have hc : Json.Reader.goesOn c = false := hrest c rfl
      have hpoint : c ≠ '.' := by
        rintro rfl
        exact absurd hc (by decide)
      rw [fraction]
      exact fun more h => absurd (List.cons.inj h).1 hpoint
  have hexponent : exponent rest = ([], []) := by
    cases rest with
    | nil => rfl
    | cons c rest =>
      have hc : Json.Reader.goesOn c = false := hrest c rfl
      simp only [Json.Reader.goesOn, Bool.or_eq_false_iff] at hc
      simp [exponent, hc.1.2, hc.2]
  simp [number, hwhole, hfraction, hexponent, Token.whole, Text.decimal, Text.decimalFrom]

theorem lexes_whole {n : Nat} {rest : List Char} {ts : List Token}
    (hends : Json.Reader.NumberEnds rest) (hrest : Lexes rest ts) :
    Lexes (Decimal.digitChars n ++ rest) (Token.whole n :: ts) := by
  have hvalue := Text.decimal_digitChars n
  have hdigits : ∀ c ∈ Decimal.digitChars n, isDigit c = true :=
    fun c => Text.isDigit_of_mem_digitChars
  obtain ⟨c, cs, hcs⟩ := List.exists_cons_of_ne_nil (Text.digitChars_ne_nil n)
  rw [hcs] at hvalue hdigits ⊢
  refine Lexes.cons _ (fun offset => ?_) hrest
  rw [lexeme_digit (hdigits c List.mem_cons_self), ← List.cons_append, number_digits hdigits hends,
    hvalue]

/-- A word is a name. -/
theorem lexes_word {c : Char} {w rest : List Char} {ts : List Token}
    (hc : c = 'n' ∨ c = 't' ∨ c = 'f') (hw : w.all isNamePart = true)
    (hends : Ends isNamePart rest) (hrest : Lexes rest ts) :
    Lexes (c :: w ++ rest) (.name (String.ofList (c :: w)) :: ts) := by
  refine Lexes.cons _ (fun offset => ?_) hrest
  have htake : (w ++ rest).takeWhile isNamePart = w :=
    Text.takeWhile_append (List.all_eq_true.1 hw) hends
  have hlexeme : lexeme offset c (w ++ rest) =
      .ok ⟨some (.name (String.ofList (c :: (w ++ rest).takeWhile isNamePart))),
        (c :: (w ++ rest).takeWhile isNamePart).length⟩ := by
    rcases hc with rfl | rfl | rfl <;> rfl
  rw [hlexeme, htake]

/-! ## Strings -/

theorem numberEscape?_control {n : Nat} (h : n < 32) :
    numberEscape? ['0', '0', hexDigit (n / 16), hexDigit n] = some (Char.ofNat n) := by
  revert n
  decide

/-- The text of one character in a string is that character. -/
theorem stringBody_escaped (c : Char) (start offset : Nat) (s : List Char) :
    ∃ o, stringBody '"' start offset (escaped c ++ s) =
      (stringBody '"' start o s).map fun x => (c :: x.1, x.2 + (escaped c).length) := by
  by_cases hshort : c ∈ ['"', '\\', '\x08', '\x0c', '\n', '\r', '\t']
  · simp only [List.mem_cons, List.not_mem_nil, or_false] at hshort
    rcases hshort with rfl | rfl | rfl | rfl | rfl | rfl | rfl <;> exact ⟨offset + 2, rfl⟩
  · simp only [List.mem_cons, List.not_mem_nil, or_false, not_or] at hshort
    obtain ⟨hquote, hback, hb, hf, hn, hr, ht⟩ := hshort
    by_cases hcontrol : c.toNat < 0x20
    · have hescaped : escaped c =
          ['\\', 'u', '0', '0', hexDigit (c.toNat / 16), hexDigit c.toNat] := by
        simp [escaped, hquote, hback, hb, hf, hn, hr, ht, hcontrol]
      have hnumber := numberEscape?_control hcontrol
      rw [Char.ofNat_toNat] at hnumber
      refine ⟨offset + 2 +
        Text.Utf8.size ['0', '0', hexDigit (c.toNat / 16), hexDigit c.toNat], ?_⟩
      rw [hescaped]
      simp only [List.cons_append, List.nil_append, stringBody, hnumber]
      rfl
    · have hescaped : escaped c = [c] := by
        simp [escaped, hquote, hback, hb, hf, hn, hr, ht, hcontrol]
      refine ⟨offset + c.utf8Size, ?_⟩
      rw [hescaped, List.singleton_append, stringBody]
      · simp [hquote]
      · exact fun h => absurd h hback
      · exact fun a b c d e h => absurd h hback
      · exact fun a b h => absurd h hback

theorem stringBody_flatMap (cs rest : List Char) (start offset : Nat) :
    stringBody '"' start offset (cs.flatMap escaped ++ '"' :: rest) =
      .ok (cs, (cs.flatMap escaped).length + 1) := by
  induction cs generalizing offset with
  | nil => rfl
  | cons c cs ih =>
    rw [List.flatMap_cons, List.append_assoc]
    obtain ⟨o, ho⟩ := stringBody_escaped c start offset (cs.flatMap escaped ++ '"' :: rest)
    rw [ho, ih o, Except.map, List.length_append]
    congr 2
    omega

theorem lexes_string (k : String) {rest : List Char} {ts : List Token} (hrest : Lexes rest ts) :
    Lexes (writeString k ++ rest) (.string k :: ts) := by
  have hpiece : ∀ offset, lexeme offset '"' (k.toList.flatMap escaped ++ ['"'] ++ rest) =
      .ok ⟨some (.string k), ('"' :: (k.toList.flatMap escaped ++ ['"'])).length⟩ := by
    intro offset
    have hlexeme : lexeme offset '"' (k.toList.flatMap escaped ++ ['"'] ++ rest) =
        (stringBody '"' offset (offset + 1) (k.toList.flatMap escaped ++ ['"'] ++ rest)) >>=
          fun x => pure ⟨some (.string (String.ofList x.1)), x.2 + 1⟩ := rfl
    have hbody := stringBody_flatMap k.toList rest offset (offset + 1)
    rw [hlexeme, List.append_assoc, List.singleton_append, hbody]
    simp [bind, Except.bind, pure, Except.pure]
  exact Lexes.cons _ hpiece hrest

/-! ## Documents -/

/-- What may come behind a document: a comma, a closing bracket, or nothing. -/
def Follows (rest : List Char) : Prop := ∀ c ∈ rest.head?, c = ',' ∨ c = ']' ∨ c = '\x7d'

theorem Follows.number {rest : List Char} (h : Follows rest) : Json.Reader.NumberEnds rest := by
  intro c hc
  rcases h c hc with rfl | rfl | rfl <;> rfl

theorem Follows.word {rest : List Char} (h : Follows rest) : Ends isNamePart rest := by
  intro c hc
  rcases h c hc with rfl | rfl | rfl <;> rfl

theorem follows_writeItems (items : List Json) (rest : List Char) :
    Follows (writeItems items ++ rest) := by
  intro c hc
  cases items <;> cases hc <;> simp

theorem follows_writeMembers (members : Members) (rest : List Char) :
    Follows (writeMembers members ++ rest) := by
  intro c hc
  cases members <;> cases hc <;> simp

theorem lexes_symbol {c : Char} {o : Symbol}
    (h : (c, o) ∈ [('[', Symbol.openBracket), (']', .closeBracket), ('\x7b', .openBrace),
      ('\x7d', .closeBrace), (',', .comma), ('-', .minus)]) {rest : List Char} {ts : List Token}
    (hrest : Lexes rest ts) : Lexes (c :: rest) (.symbol o :: ts) :=
  Lexes.cons [] (fun offset => lexeme_symbol h rest offset) hrest

theorem lexes_colon {v : Json} {rest : List Char} {ts : List Token}
    (hrest : Lexes (write v ++ rest) ts) :
    Lexes (':' :: (write v ++ rest)) (.symbol .colon :: ts) := by
  have hne : (write v ++ rest).head? ≠ some '=' := by
    obtain ⟨c, s, hs, hc⟩ := Json.exists_cons_write v
    rw [hs]
    exact fun h => hc.2.2.2 (Option.some.inj h)
  exact Lexes.cons [] (fun offset => lexeme_colon hne offset) hrest

theorem lexes_number {n : Number} (hn : ∃ k, n.whole? = some k ∧ k.natAbs < Number.exactLimit)
    {rest : List Char} {ts : List Token} (hends : Json.Reader.NumberEnds rest)
    (hrest : Lexes rest ts) :
    Lexes (write (.number n) ++ rest) (Token.row (.number n) ++ ts) := by
  obtain ⟨k, hk, -⟩ := hn
  cases n with
  | real x => cases hk
  | whole n h =>
    have hwhole := lexes_whole (n := n.natAbs) hends hrest
    show Lexes ((if n < 0 then ['-'] else []) ++ Decimal.digitChars n.natAbs ++ rest)
      ((if n < 0 then [.symbol .minus] else []) ++ [Token.whole n.natAbs] ++ ts)
    split
    · exact lexes_symbol (by simp) hwhole
    · exact hwhole

/-- A document lexes to its tokens, whatever follows it. -/
def Cuts (v : Json) : Prop :=
  ∀ rest ts, Follows rest → Lexes rest ts → Lexes (write v ++ rest) (Token.row v ++ ts)

theorem lexes_writeItems {items : List Json} (hitems : ∀ v ∈ items, Cuts v) {rest : List Char}
    {ts : List Token} (hrest : Lexes rest ts) :
    Lexes (writeItems items ++ rest) (Token.rowItems items ++ ts) := by
  induction items with
  | nil => exact lexes_symbol (by simp) hrest
  | cons v items ih =>
    have htail := ih fun w hw => hitems w (List.mem_cons_of_mem v hw)
    have hv := hitems v List.mem_cons_self _ _ (follows_writeItems items rest) htail
    rw [writeItems, Token.rowItems, List.cons_append, List.cons_append, List.append_assoc,
      List.append_assoc]
    exact lexes_symbol (by simp) hv

theorem lexes_writeMembers {members : Members} (hmembers : ∀ m ∈ members, Cuts m.2)
    {rest : List Char} {ts : List Token} (hrest : Lexes rest ts) :
    Lexes (writeMembers members ++ rest) (Token.rowMembers members ++ ts) := by
  induction members with
  | nil => exact lexes_symbol (by simp) hrest
  | cons m members ih =>
    obtain ⟨k, v⟩ := m
    have htail := ih fun m hm => hmembers m (List.mem_cons_of_mem _ hm)
    have hv := hmembers (k, v) List.mem_cons_self _ _ (follows_writeMembers members rest) htail
    have htext : writeMembers ((k, v) :: members) ++ rest =
        ',' :: (writeString k ++ ':' :: (write v ++ (writeMembers members ++ rest))) := by
      simp [writeMembers]
    rw [htext, Token.rowMembers, List.cons_append, List.cons_append, List.cons_append,
      List.append_assoc]
    exact lexes_symbol (by simp) (lexes_string k (lexes_colon hv))

/-- **The text of a document is cut into the tokens of the document.** -/
theorem lexes_write (v : Json) (hv : v.Exact) : Cuts v := by
  induction v using Json.induction with
  | null =>
    intro rest ts hends hrest
    have htext : write .null = 'n' :: ['u', 'l', 'l'] := by decide
    have hw : List.all ['u', 'l', 'l'] isNamePart = true := by decide
    rw [htext]
    exact lexes_word (Or.inl rfl) hw hends.word hrest
  | bool b =>
    intro rest ts hends hrest
    cases b with
    | true =>
      have htext : write (.bool true) = 't' :: ['r', 'u', 'e'] := by decide
      have hw : List.all ['r', 'u', 'e'] isNamePart = true := by decide
      rw [htext]
      exact lexes_word (Or.inr (Or.inl rfl)) hw hends.word hrest
    | false =>
      have htext : write (.bool false) = 'f' :: ['a', 'l', 's', 'e'] := by decide
      have hw : List.all ['a', 'l', 's', 'e'] isNamePart = true := by decide
      rw [htext]
      exact lexes_word (Or.inr (Or.inr rfl)) hw hends.word hrest
  | number n =>
    intro rest ts hends hrest
    exact lexes_number hv hends.number hrest
  | string s =>
    intro rest ts _ hrest
    exact lexes_string s hrest
  | array items ih =>
    intro rest ts _ hrest
    have hitems : ∀ v ∈ items, Cuts v := fun v hm => ih v hm (Json.exactItems_iff.1 hv v hm)
    cases items with
    | nil => exact lexes_symbol (by simp) (lexes_symbol (by simp) hrest)
    | cons v items =>
      have htail := lexes_writeItems (fun w hw => hitems w (List.mem_cons_of_mem v hw)) hrest
      have hv := hitems v List.mem_cons_self _ _ (follows_writeItems items rest) htail
      rw [write, Token.row, List.cons_append, List.cons_append, List.append_assoc,
        List.append_assoc]
      exact lexes_symbol (by simp) hv
  | object members ih =>
    intro rest ts _ hrest
    have hmembers : ∀ m ∈ members, Cuts m.2 :=
      fun m hm => ih m hm (Json.exactMembers_iff.1 hv m hm)
    cases members with
    | nil => exact lexes_symbol (by simp) (lexes_symbol (by simp) hrest)
    | cons m members =>
      obtain ⟨k, v⟩ := m
      have htail := lexes_writeMembers (fun m hm => hmembers m (List.mem_cons_of_mem _ hm)) hrest
      have hv := hmembers (k, v) List.mem_cons_self _ _ (follows_writeMembers members rest) htail
      have htext : write (.object ((k, v) :: members)) ++ rest =
          '\x7b' :: (writeString k ++ ':' :: (write v ++ (writeMembers members ++ rest))) := by
        simp [write]
      rw [htext, Token.row, List.cons_append, List.cons_append, List.cons_append,
        List.append_assoc]
      exact lexes_symbol (by simp) (lexes_string k (lexes_colon hv))

end Lexer

/-- The tokens of the text of a document are those of the document, and the end mark. -/
theorem tokens_text {v : Json} (hv : v.Exact) :
    ∃ ls, tokens v.text = .ok ls ∧ ls.map Located.token = Token.row v ++ [.done] := by
  have hlexes := Lexer.lexes_write v hv [] [] (fun c hc => by cases hc) Lexer.lexes_nil
  rw [List.append_nil, List.append_nil] at hlexes
  rw [tokens, Json.text, String.toList_ofList]
  exact hlexes _ 0 le_rfl

end Expression

end Reshape
