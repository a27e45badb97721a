/-
# What is written in a string

Between its quotes a string is a row of items (`Row`): a character as it is, an escape with a
letter, or an escape by number with four hexadecimal digits (`Item`).  The row denotes the
characters of its items.

In an escape by number the reader also takes a plus sign and three digits (`Signed`).  With
these items besides (`Accepted`), it accepts the rows before a closing quote and nothing else
(`stringBody_eq_ok_iff`).
-/
import Mathlib.Tactic
import Reshape.Expression.Lexer

namespace Reshape.Expression.Lexer

open Text (hexNumber? charOfCode?)

/-! ## Items -/

/-- The letters of escapes, with the characters they denote. -/
def letterEscapes : List (Char × Char) :=
  [('"', '"'), ('\'', '\''), ('\\', '\\'), ('/', '/'), ('b', '\x08'), ('f', '\x0c'),
    ('n', '\n'), ('r', '\r'), ('t', '\t')]

/-- What stands for one character of a string. -/
inductive Item (quote : Char) : List Char → Char → Prop
  | plain {c : Char} (hquote : c ≠ quote) (hback : c ≠ '\\') : Item quote [c] c
  | letter {e x : Char} (h : (e, x) ∈ letterEscapes) : Item quote ['\\', e] x
  | number {a b c d x : Char} (h : hexNumber? [a, b, c, d] = some x.toNat) :
      Item quote ['\\', 'u', a, b, c, d] x

/-- An escape by number whose first digit is missing, with a plus sign in its place. -/
inductive Signed : List Char → Char → Prop
  | plus {b c d x : Char} (h : hexNumber? [b, c, d] = some x.toNat) :
      Signed ['\\', 'u', '+', b, c, d] x

/-- What the reader takes for one character of a string. -/
def Accepted (quote : Char) (w : List Char) (x : Char) : Prop := Item quote w x ∨ Signed w x

/-- A row of items, with the characters that they stand for. -/
inductive Row (item : List Char → Char → Prop) : List Char → List Char → Prop
  | nil : Row item [] []
  | cons {w w' text : List Char} {x : Char} (hx : item w x) (h : Row item w' text) :
      Row item (w ++ w') (x :: text)

theorem simpleEscape?_eq_some_iff {e x : Char} :
    simpleEscape? e = some x ↔ (e, x) ∈ letterEscapes := by
  constructor
  · intro h
    unfold simpleEscape? at h
    split_ifs at h with hself hb hf hn hr ht
    · cases h
      simp only [Bool.or_eq_true, beq_iff_eq] at hself
      rcases hself with ((rfl | rfl) | rfl) | rfl <;> decide
    all_goals
      cases h
      simp_all [letterEscapes]
  · intro h
    simp only [letterEscapes, List.mem_cons, Prod.mk.injEq, List.not_mem_nil, or_false] at h
    rcases h with ⟨rfl, rfl⟩ | ⟨rfl, rfl⟩ | ⟨rfl, rfl⟩ | ⟨rfl, rfl⟩ | ⟨rfl, rfl⟩ | ⟨rfl, rfl⟩ |
      ⟨rfl, rfl⟩ | ⟨rfl, rfl⟩ | ⟨rfl, rfl⟩ <;> rfl

/-- The letter of an escape by number is no letter of another escape. -/
theorem ne_u_of_mem {e x : Char} (h : (e, x) ∈ letterEscapes) : e ≠ 'u' := by
  rintro rfl
  simp [letterEscapes] at h

/-- The character with a code point is the one of that number. -/
theorem charOfCode?_eq_some_iff {n : Nat} {x : Char} : charOfCode? n = some x ↔ n = x.toNat := by
  unfold charOfCode?
  constructor
  · intro h
    split at h
    · rename_i hvalid
      cases h
      rw [Char.ofNat, dif_pos hvalid]
      rfl
    · cases h
  · rintro rfl
    rw [if_pos (show x.toNat.isValidChar from x.valid), Char.ofNat_toNat]

theorem numberEscape?_eq_some_iff {a b c d x : Char} :
    numberEscape? [a, b, c, d] = some x ↔
      hexNumber? [a, b, c, d] = some x.toNat ∨
        a = '+' ∧ hexNumber? [b, c, d] = some x.toNat := by
  have hcode : ∀ ds : List Char, (hexNumber? ds).bind charOfCode? = some x ↔
      hexNumber? ds = some x.toNat := by
    intro ds
    cases hexNumber? ds with
    | none => simp
    | some n => simp [charOfCode?_eq_some_iff]
  by_cases ha : a = '+'
  · subst ha
    -- a plus sign is no digit
    have hnone : hexNumber? ['+', b, c, d] = none := rfl
    rw [numberEscape?, hcode, hnone]
    simp
  · rw [numberEscape?, hcode]
    · simp [ha]
    · intro rest h
      exact ha (List.cons.inj h).1

/-! ## Reading -/

section Reading

variable {quote : Char} (hquote : quote ≠ '\\')

/-- The reader takes an item for its character, whatever comes behind it. -/
theorem stringBody_item {w : List Char} {x : Char} (h : Accepted quote w x) (start offset : Nat)
    (s : List Char) : ∃ o, stringBody quote start offset (w ++ s) =
      (stringBody quote start o s).map fun r => (x :: r.1, r.2 + w.length) := by
  have hnumber : ∀ {a b c d : Char}, numberEscape? [a, b, c, d] = some x →
      ∃ o, stringBody quote start offset (['\\', 'u', a, b, c, d] ++ s) =
        (stringBody quote start o s).map fun r => (x :: r.1, r.2 + 6) := by
    intro a b c d hx
    refine ⟨offset + 2 + Text.Utf8.size [a, b, c, d], ?_⟩
    show stringBody quote start offset ('\\' :: 'u' :: a :: b :: c :: d :: s) = _
    rw [stringBody, hx]
  rcases h with h | h
  · cases h with
    | plain hne hback =>
      refine ⟨offset + x.utf8Size, ?_⟩
      rw [List.singleton_append, stringBody]
      · simp [hne]
      · exact fun h => absurd h hback
      · exact fun a b c d e h => absurd h hback
      · exact fun a b h => absurd h hback
    | @letter e _ h =>
      refine ⟨offset + 2, ?_⟩
      show stringBody quote start offset ('\\' :: e :: s) = _
      rw [stringBody]
      · simp [ne_u_of_mem h, simpleEscape?_eq_some_iff.2 h]
      · exact fun a b c d rest h' => absurd h' (ne_u_of_mem h)
    | number h => exact hnumber (numberEscape?_eq_some_iff.2 (Or.inl h))
  · cases h with
    | plus h => exact hnumber (numberEscape?_eq_some_iff.2 (Or.inr ⟨rfl, h⟩))

/-- An item before a row that was read adds its character to the text of the row. -/
theorem exists_row_cons {w s text : List Char} {x : Char} {n : Nat}
    {read : Except Fault (List Char × Nat)} (hx : Accepted quote w x)
    (ih : ∀ {n : Nat} {text : List Char}, read = .ok (text, n) →
      ∃ w rest, Row (Accepted quote) w text ∧ s = w ++ quote :: rest ∧ n = w.length + 1)
    (h : (read.map fun (text, n) => (x :: text, n + w.length)) = .ok (text, n)) :
    ∃ w' rest, Row (Accepted quote) w' text ∧ w ++ s = w' ++ quote :: rest ∧ n = w'.length + 1 := by
  cases read with
  | error _ => cases h
  | ok r =>
    cases h
    obtain ⟨w', rest, hw', rfl, hn⟩ := ih rfl
    refine ⟨w ++ w', rest, .cons hx hw', (List.append_assoc _ _ _).symm, ?_⟩
    rw [List.length_append, hn]
    omega

/-- Only a row before a closing quote is read. -/
theorem exists_row {start offset n : Nat} {s text : List Char}
    (h : stringBody quote start offset s = .ok (text, n)) :
    ∃ w rest, Row (Accepted quote) w text ∧ s = w ++ quote :: rest ∧ n = w.length + 1 := by
  fun_induction stringBody quote start offset s generalizing n text with
  | case1 | case2 | case4 | case5 | case7 => cases h
  | case3 offset a b c d s x hx ih =>
    have hitem : Accepted quote ['\\', 'u', a, b, c, d] x := by
      rcases numberEscape?_eq_some_iff.1 hx with hcode | ⟨rfl, hcode⟩
      · exact Or.inl (.number hcode)
      · exact Or.inr (.plus hcode)
    exact exists_row_cons hitem ih h
  | case6 offset e s _ _ x hx ih =>
    exact exists_row_cons (Or.inl (.letter (simpleEscape?_eq_some_iff.1 hx))) ih h
  | case8 offset c s _ _ _ hc =>
    cases h
    exact ⟨[], s, .nil, by simp [beq_iff_eq.1 hc], rfl⟩
  | case9 offset c s hend _ hesc hc ih =>
    have hback : c ≠ '\\' := by
      rintro rfl
      cases s with
      | nil => exact hend rfl rfl
      | cons e s => exact hesc e s rfl rfl
    exact exists_row_cons (Or.inl (.plain (by simpa using hc) hback)) ih h

include hquote

/-- The closing quote ends the string. -/
theorem stringBody_quote (start offset : Nat) (s : List Char) :
    stringBody quote start offset (quote :: s) = .ok ([], 1) := by
  rw [stringBody]
  · simp
  · exact fun h => absurd h hquote
  · exact fun a b c d e h => absurd h hquote
  · exact fun a b h => absurd h hquote

/-- A row before a closing quote is read. -/
theorem stringBody_row {w text : List Char} (h : Row (Accepted quote) w text) (start offset : Nat)
    (rest : List Char) :
    stringBody quote start offset (w ++ quote :: rest) = .ok (text, w.length + 1) := by
  induction h generalizing offset with
  | nil => exact stringBody_quote hquote start offset rest
  | @cons w w' text x hx _ ih =>
    obtain ⟨o, ho⟩ := stringBody_item hx start offset (w' ++ quote :: rest)
    rw [List.append_assoc, ho, ih o, Except.map, List.length_append]
    congr 2
    omega

/-- **Strings are read by their grammar.** -/
theorem stringBody_eq_ok_iff {start offset n : Nat} {s text : List Char} :
    stringBody quote start offset s = .ok (text, n) ↔
      ∃ w rest, Row (Accepted quote) w text ∧ s = w ++ quote :: rest ∧ n = w.length + 1 := by
  constructor
  · exact exists_row
  · rintro ⟨w, rest, hw, rfl, rfl⟩
    exact stringBody_row hquote hw start offset rest

end Reading

end Reshape.Expression.Lexer
