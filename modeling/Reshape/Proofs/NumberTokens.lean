/-
# Number literals

A number is written with digits, and with a fraction and an exponent if it has any (`Numeral`).
At a digit the tokenizer takes the longest text that is a number (`Lexer.exists_longest`), and the
literal that the number becomes is that of a double to which no other is nearer.  There is no such
double for a number that is too large, and its literal is null
(`number_literals_are_nearest_doubles`).
-/
import Mathlib.Tactic
import Mathlib.Data.List.TakeWhile
import Reshape.Proofs.Decimals
import Reshape.Proofs.LiteralTokens
import Reshape.Proofs.Pieces
import Reshape.Proofs.Sublanguage

namespace Reshape

/-- The number of a finite double has its value. -/
theorem Number.exists_ofResult? (d : Finite) :
    ∃ n : Number, Number.ofResult? (.finite d) = some n ∧ n.value = d.value := by
  by_cases h : d.wholePart < Number.exactLimit ∧ d.isWhole = true
  · obtain ⟨hlt, hwhole⟩ := h
    obtain ⟨negative, units, hrep⟩ := d
    have hunits : units / Magnitude.one * Magnitude.one = units :=
      Nat.div_mul_cancel (Nat.dvd_of_mod_eq_zero (beq_iff_eq.1 hwhole))
    have hk : units / Magnitude.one < Number.exactLimit := hlt
    generalize units / Magnitude.one = k at hunits hk
    subst hunits
    refine ⟨_, Expression.ofResult?_whole hk negative, ?_⟩
    rw [Finite.value_mul_one, Number.value]
    split_ifs <;> push_cast <;> rfl
  · exact ⟨.real d, dif_neg h, rfl⟩

namespace Expression

open Text (isDigit decimal Ends)
open Text.Utf8 (size)

/-! ## Numbers as they are written -/

/-- The text is a row of digits. -/
def IsDigits (ds : List Char) : Prop := ds ≠ [] ∧ ∀ c ∈ ds, isDigit c = true

instance (ds : List Char) : Decidable (IsDigits ds) :=
  decidable_of_iff ((!ds.isEmpty && ds.all isDigit) = true) (by simp [IsDigits])

/-- More digits may come behind a row of digits. -/
theorem IsDigits.length_le {ds : List Char} (h : IsDigits ds) (rest : List Char) :
    ds.length ≤ ((ds ++ rest).takeWhile isDigit).length := by
  rw [List.takeWhile_append_of_pos h.2, List.length_append]
  exact Nat.le_add_right _ _

/-- The text behind the whole digits of a number, and what it adds to them. -/
inductive Fraction : List Char → ℚ → Prop
  | none : Fraction [] 0
  | some {ds : List Char} (h : IsDigits ds) :
      Fraction ('.' :: ds) (decimal ds / 10 ^ ds.length)

/-- The text at the end of a number, and the power of ten that it stands for. -/
inductive Exponent : List Char → ℤ → Prop
  | none : Exponent [] 0
  | plain {mark : Char} {ds : List Char} (hmark : mark = 'e' ∨ mark = 'E') (h : IsDigits ds) :
      Exponent (mark :: ds) (decimal ds)
  | plus {mark : Char} {ds : List Char} (hmark : mark = 'e' ∨ mark = 'E') (h : IsDigits ds) :
      Exponent (mark :: '+' :: ds) (decimal ds)
  | minus {mark : Char} {ds : List Char} (hmark : mark = 'e' ∨ mark = 'E') (h : IsDigits ds) :
      Exponent (mark :: '-' :: ds) (-decimal ds)

/-- An exponent begins with its letter. -/
theorem Exponent.eq_nil_or {es : List Char} {e : ℤ} (h : Exponent es e) :
    es = [] ∨ ∃ mark s, es = mark :: s ∧ isDigit mark = false ∧ mark ≠ '.' := by
  have hletter : ∀ mark : Char, mark = 'e' ∨ mark = 'E' → isDigit mark = false ∧ mark ≠ '.' := by
    rintro mark (rfl | rfl) <;> decide
  cases h with
  | none => exact .inl rfl
  | plain hmark | plus hmark | minus hmark => exact .inr ⟨_, _, rfl, hletter _ hmark⟩

/-- The text is a number, and this is its value. -/
inductive Numeral : List Char → ℚ → Prop
  | mk {ds fs es : List Char} {v : ℚ} {e : ℤ} (hds : IsDigits ds) (hfs : Fraction fs v)
      (hes : Exponent es e) : Numeral (ds ++ (fs ++ es)) ((decimal ds + v) * 10 ^ e)

/-- The text is the longest number at the start of another text. -/
structure Numeral.Longest (s w : List Char) (q : ℚ) : Prop where
  numeral : Numeral w q
  start : w <+: s
  longest : ∀ w' q', Numeral w' q' → w' <+: s → w'.length ≤ w.length

namespace Lexer

variable {s t ds : List Char}

/-! ## The parts of a number -/

/-- The number of characters of a fraction. -/
def fractionLength (s : List Char) : ℕ :=
  if (fraction s).isEmpty then 0 else (fraction s).length + 1

/-- The number of characters of an exponent. -/
def exponentLength (s : List Char) : ℕ :=
  if (exponent s).2.isEmpty then 0 else 1 + (exponent s).1.length + (exponent s).2.length

/-- The power of ten of an exponent. -/
def exponentValue (s : List Char) : ℤ :=
  if (exponent s).1 == ['-'] then -decimal (exponent s).2 else decimal (exponent s).2

/-- A number whose whole digits are cut off. -/
theorem number_append (hds : ∀ c ∈ ds, isDigit c = true) (ht : Ends isDigit t) :
    number (ds ++ t) = ⟨some (.number (Decimal.toBinary64 false
        ⟨decimal (ds ++ fraction t), exponentValue (t.drop (fractionLength t)) -
          (fraction t).length⟩)),
      ds.length + (fractionLength t + exponentLength (t.drop (fractionLength t)))⟩ := by
  rw [number, Text.takeWhile_append hds ht, List.drop_left, ← List.drop_drop, List.drop_left,
    ← Nat.add_assoc]
  rfl

/-- The digits at the start of a text. -/
theorem exists_digits {c : Char} (hc : isDigit c = true) :
    ∃ ds t, c :: s = ds ++ t ∧ IsDigits ds ∧ Ends isDigit t := by
  refine ⟨(c :: s).takeWhile isDigit, (c :: s).dropWhile isDigit,
    List.takeWhile_append_dropWhile.symm, ⟨?_, fun d hd => List.mem_takeWhile_imp hd⟩, ?_⟩
  · rw [List.takeWhile_cons, if_pos hc]
    exact List.cons_ne_nil _ _
  · intro d hd
    have hnot := List.head?_dropWhile_not isDigit (c :: s)
    rwa [Option.mem_def.1 hd] at hnot

theorem exists_fraction (s : List Char) : ∃ fs rest, s = fs ++ rest ∧
    fs.length = fractionLength s ∧
      Fraction fs (decimal (fraction s) / 10 ^ (fraction s).length) := by
  by_cases hnone : fraction s = []
  · refine ⟨[], s, rfl, ?_, ?_⟩
    · rw [fractionLength, hnone]
      rfl
    · rw [hnone]
      simpa [decimal, Text.decimalFrom] using Fraction.none
  · have hlength : fractionLength s = (fraction s).length + 1 := if_neg (by simpa using hnone)
    rw [hlength]
    unfold fraction at hnone ⊢
    split
    · rename_i more
      refine ⟨'.' :: more.takeWhile isDigit, more.dropWhile isDigit, ?_, rfl, .some ⟨hnone, ?_⟩⟩
      · rw [List.cons_append, List.takeWhile_append_dropWhile]
      · exact fun c hc => List.mem_takeWhile_imp hc
    · rename_i hpoint
      split at hnone
      · exact absurd rfl (hpoint _)
      · exact absurd rfl hnone

theorem exists_signed (s : List Char) : ∃ rest, s = (signed s).1 ++ ((signed s).2 ++ rest) ∧
    (∀ c ∈ (signed s).2, isDigit c = true) ∧
      ((signed s).1 = [] ∨ (signed s).1 = ['+'] ∨ (signed s).1 = ['-']) := by
  unfold signed
  split
  · rename_i more
    refine ⟨more.dropWhile isDigit, ?_, fun c hc => List.mem_takeWhile_imp hc, .inr (.inl rfl)⟩
    rw [List.takeWhile_append_dropWhile]
    rfl
  · rename_i more
    refine ⟨more.dropWhile isDigit, ?_, fun c hc => List.mem_takeWhile_imp hc, .inr (.inr rfl)⟩
    rw [List.takeWhile_append_dropWhile]
    rfl
  · refine ⟨s.dropWhile isDigit, ?_, fun c hc => List.mem_takeWhile_imp hc, .inl rfl⟩
    rw [List.takeWhile_append_dropWhile]
    rfl

theorem exists_exponent (s : List Char) : ∃ es rest, s = es ++ rest ∧
    es.length = exponentLength s ∧ Exponent es (exponentValue s) := by
  by_cases hnone : (exponent s).2 = []
  · refine ⟨[], s, rfl, ?_, ?_⟩
    · rw [exponentLength, hnone]
      rfl
    · rw [exponentValue, hnone]
      simpa [decimal, Text.decimalFrom] using Exponent.none
  · have hlength : exponentLength s = 1 + (exponent s).1.length + (exponent s).2.length :=
      if_neg (by simpa using hnone)
    rw [hlength, exponentValue]
    cases s with
    | nil => exact absurd rfl hnone
    | cons mark s =>
      by_cases hmark : (mark == 'e' || mark == 'E') = true
      · rw [exponent_cons, if_pos hmark] at hnone ⊢
        have hmark : mark = 'e' ∨ mark = 'E' := by simpa using hmark
        obtain ⟨rest, hs, hdigits, hsign⟩ := exists_signed s
        have hds : IsDigits (signed s).2 := ⟨hnone, hdigits⟩
        refine ⟨mark :: ((signed s).1 ++ (signed s).2), rest, ?_, ?_, ?_⟩
        · rw [List.cons_append, List.append_assoc, ← hs]
        · rw [List.length_cons, List.length_append]
          omega
        · rcases hsign with hsign | hsign | hsign <;> rw [hsign]
          · exact .plain hmark hds
          · exact .plus hmark hds
          · exact .minus hmark hds
      · rw [exponent_cons, if_neg hmark] at hnone
        exact absurd rfl hnone

/-! ## The longest number -/

/-- No exponent at the start of a text is longer than the one that is read. -/
theorem length_le_exponentLength {es : List Char} {e : ℤ} (h : Exponent es e)
    (rest : List Char) : es.length ≤ exponentLength (es ++ rest) := by
  have hread : ∀ (mark : Char) (sign ds : List Char), (mark = 'e' ∨ mark = 'E') → IsDigits ds →
      signed (sign ++ (ds ++ rest)) = (sign, (ds ++ rest).takeWhile isDigit) →
        (mark :: (sign ++ ds)).length ≤ exponentLength (mark :: (sign ++ (ds ++ rest))) := by
    intro mark sign ds hmark hds hsigned
    have hlen := hds.length_le rest
    have hpos : 0 < ds.length := List.length_pos_iff.2 hds.1
    have hsome : ¬ ((ds ++ rest).takeWhile isDigit).isEmpty = true := by
      rw [List.isEmpty_iff_length_eq_zero]
      omega
    have hexponent : exponent (mark :: (sign ++ (ds ++ rest))) =
        (sign, (ds ++ rest).takeWhile isDigit) := by
      rw [exponent_cons, if_pos (by simpa using hmark), hsigned]
    rw [exponentLength, hexponent, if_neg hsome, List.length_cons, List.length_append]
    show sign.length + ds.length + 1 ≤ 1 + sign.length + ((ds ++ rest).takeWhile isDigit).length
    omega
  cases h with
  | none => exact Nat.zero_le _
  | @plain mark ds hmark hds =>
    refine hread _ [] _ hmark hds ?_
    obtain ⟨d, ds, rfl⟩ := List.exists_cons_of_ne_nil hds.1
    have hd := hds.2 d List.mem_cons_self
    refine signed_of_head?_ne ?_ ?_
    · rintro ⟨⟩
      exact absurd hd (by decide)
    · rintro ⟨⟩
      exact absurd hd (by decide)
  | plus hmark hds => exact hread _ ['+'] _ hmark hds rfl
  | minus hmark hds => exact hread _ ['-'] _ hmark hds rfl

/-- Nor is a fraction with an exponent. -/
theorem length_le_fractionLength {fs es : List Char} {v : ℚ} {e : ℤ} (hfs : Fraction fs v)
    (hes : Exponent es e) (rest : List Char) :
    fs.length + es.length ≤ fractionLength (fs ++ (es ++ rest)) +
      exponentLength ((fs ++ (es ++ rest)).drop (fractionLength (fs ++ (es ++ rest)))) := by
  have hexponent := length_le_exponentLength hes rest
  cases hfs with
  | none =>
    rcases hes.eq_nil_or with rfl | ⟨mark, s, rfl, -, hpoint⟩
    · exact Nat.zero_le _
    · have hnone : fraction ([] ++ (mark :: s ++ rest)) = [] :=
        fraction_of_head?_ne (by simpa using hpoint)
      have hlength : fractionLength ([] ++ (mark :: s ++ rest)) = 0 := by
        rw [fractionLength, hnone]
        rfl
      rw [hlength]
      exact Nat.add_le_add_left hexponent 0
  | @some ds hds =>
    have hread : fraction ('.' :: ds ++ (es ++ rest)) =
        (ds ++ (es ++ rest)).takeWhile isDigit := rfl
    have hlen := hds.length_le (es ++ rest)
    have hpos : 0 < ds.length := List.length_pos_iff.2 hds.1
    have hlength : fractionLength ('.' :: ds ++ (es ++ rest)) =
        ((ds ++ (es ++ rest)).takeWhile isDigit).length + 1 := by
      rw [fractionLength, hread, if_neg]
      rw [List.isEmpty_iff_length_eq_zero]
      omega
    rw [hlength, List.length_cons]
    rcases hes.eq_nil_or with rfl | ⟨mark, s, rfl, hmark, -⟩
    · rw [List.length_nil]
      omega
    · have hends : Ends isDigit (mark :: s ++ rest) := fun c hc => by
        cases hc
        exact hmark
      rw [Text.takeWhile_append hds.2 hends, ← List.length_cons, List.drop_left]
      exact Nat.add_le_add_left hexponent _

/-- **No number at the start of a text is longer than the one that is read.** -/
theorem length_le_number {w : List Char} {q : ℚ} (h : Numeral w q) (rest : List Char) :
    w.length ≤ (number (w ++ rest)).length := by
  obtain @⟨ds, fs, es, v, e, hds, hfs, hes⟩ := h
  have hbehind := length_le_fractionLength hfs hes rest
  rw [List.length_append, List.length_append, List.append_assoc, List.append_assoc]
  by_cases hends : Ends isDigit (fs ++ (es ++ rest))
  · rw [number_append hds.2 hends]
    exact Nat.add_le_add_left hbehind _
  · -- only more digits can be there
    have hnone : fs = [] ∧ es = [] := by
      refine ⟨?_, ?_⟩ <;> by_contra hne <;> refine hends fun c hc => ?_
      · cases hfs with
        | none => exact absurd rfl hne
        | some =>
          cases hc
          decide
      · cases hfs with
        | none =>
          obtain ⟨mark, s, rfl, hmark, -⟩ := hes.eq_nil_or.resolve_left hne
          cases hc
          exact hmark
        | some =>
          cases hc
          decide
    obtain ⟨rfl, rfl⟩ := hnone
    have hlen := hds.length_le rest
    rw [List.nil_append, List.nil_append, number]
    exact hlen.trans (Nat.le_add_right_of_le (Nat.le_add_right _ _))

/-- A numeral has the value of what is read. -/
theorem value_eq (ds fs : List Char) (e : ℤ) : Decimal.value ⟨decimal (ds ++ fs), e - fs.length⟩ =
    (decimal ds + decimal fs / 10 ^ fs.length) * 10 ^ e := by
  have hten : (10 : ℚ) ≠ 0 := by norm_num
  rw [Decimal.value, Text.decimal_append, zpow_sub₀ hten, zpow_natCast]
  push_cast
  field_simp

/-- **At a digit the longest number is read.** -/
theorem exists_longest {c : Char} (hc : isDigit c = true) (s : List Char) :
    ∃ w d, number (c :: s) = ⟨some (.number (Decimal.toBinary64 false d)), w.length⟩ ∧
      Numeral.Longest (c :: s) w d.value := by
  obtain ⟨ds, t, hs, hds, ht⟩ := exists_digits (s := s) hc
  obtain ⟨fs, rest, hfs, hfslen, hfraction⟩ := exists_fraction t
  obtain ⟨es, rest', hes, heslen, hexponent⟩ := exists_exponent (t.drop (fractionLength t))
  have hrest : t.drop (fractionLength t) = rest := by
    conv_lhs => rw [← hfslen, hfs, List.drop_left]
  have hnumber := number_append hds.2 ht
  rw [hrest] at hes heslen hexponent hnumber
  have hlen : (number (ds ++ t)).length = (ds ++ (fs ++ es)).length := by
    rw [hnumber, List.length_append, List.length_append, hfslen, heslen]
  refine ⟨ds ++ (fs ++ es), ⟨decimal (ds ++ fraction t), exponentValue rest - (fraction t).length⟩,
    ?_, ?_, ?_, ?_⟩
  · rw [hs, ← hlen, hnumber]
  · rw [value_eq]
    exact .mk hds hfraction hexponent
  · rw [hs, hfs, hes, ← List.append_assoc, ← List.append_assoc, ← List.append_assoc]
    exact List.prefix_append _ _
  · rintro w' q' hw' ⟨more, hmore⟩
    rw [← hlen, ← hs, ← hmore]
    exact length_le_number hw' more

/-! ## Number tokens -/

/-- Only a digit starts a number. -/
theorem isDigit_of_lexeme {offset : ℕ} {c : Char} {rest : List Char} {l : Lexeme} {x : Binary64}
    (h : lexeme offset c rest = .ok l) (hx : l.token? = some (.number x)) : isDigit c = true := by
  by_contra hc
  unfold lexeme at h
  rw [if_neg hc] at h
  split at h
  · cases h
    cases hx
  split at h
  · split at h
    · cases h
      cases hx
    · cases h
  split at h
  · simp only [bind, Except.bind] at h
    split at h
    · cases h
    · cases h
      cases hx
  split at h
  · split at h
    · cases h
      cases hx
    · cases h
  split at h
  · cases h
    cases hx
  split at h
  · cases h
    cases hx
  split at h
  · cases h
    cases hx
  · cases h

/-- A token of a row of lexemes is that of a lexeme at its place. -/
theorem Pieces.exists_lexeme {rest : List Char} {offset : ℕ} {ts : List Located}
    (h : Pieces rest offset s ts) {u : Located} (hu : u ∈ ts) :
    ∃ before c more l, s ++ rest = before ++ c :: more ∧ offset + size before = u.position ∧
      lexeme u.position c more = .ok l ∧ l.token? = some u.token := by
  induction h with
  | nil => cases hu
  | @cons offset c piece s l ts hl _ _ ih =>
    rcases List.mem_append.1 hu with hu | hu
    · obtain ⟨t, ht, rfl⟩ := Option.map_eq_some_iff.1 (Option.mem_toList.1 hu)
      exact ⟨[], c, _, l, by simp, rfl, hl, ht⟩
    · obtain ⟨before, d, more, l', hs, hsize, hl', hu'⟩ := ih hu
      refine ⟨c :: piece ++ before, d, more, l', ?_, ?_, hl', hu'⟩
      · rw [List.append_assoc, hs, List.append_assoc]
      · rw [size_append, ← Nat.add_assoc, hsize]

end Lexer

open Binary64 (overflow)

/-- The literal of a number: a double to which no other is nearer, or null if the number is at
least half a place beyond the largest double. -/
structure LiteralOf (q : ℚ) (v : Json) : Prop where
  nearest : q < overflow → ∃ n : Number, v = .number n ∧ n.IsDouble ∧
    ∀ y : Finite, |q - n.value| ≤ |q - y.value|
  beyond : overflow ≤ q → v = .null

/-- The literal of a numeral is that of its value. -/
theorem literalOf_numberLiteral (d : Decimal) :
    LiteralOf d.value (Parser.numberLiteral (d.toBinary64 false)) := by
  constructor
  · intro h
    obtain ⟨x, hx, hnearest⟩ := Decimal.exists_nearest h
    obtain ⟨n, hn, hvalue⟩ := Number.exists_ofResult? x
    refine ⟨n, ?_, ⟨x, hvalue.symm⟩, fun y => ?_⟩
    · rw [Parser.numberLiteral, hx, hn]
    · rw [hvalue]
      exact hnearest y
  · intro h
    rw [Parser.numberLiteral, Decimal.toBinary64_of_overflow h]
    rfl

/-- **The literals of a text are those of its tree, and the literal of a number is the double
nearest to it.**  A token of a number is the longest number that is written at its place.  Its
literal stands in the tree and evaluates to itself everywhere.  It is a double to which no other
is nearer, unless the number is half a place or more beyond the largest double: then it is
null. -/
theorem number_literals_are_nearest_doubles {source : String} {t : Tree}
    (h : compileTree source = .ok t) :
    ∃ ts, tokens source = .ok ts ∧ literalsIn ts = t.literals ∧
      ∀ x p, ⟨.number x, p⟩ ∈ ts →
        Tree.Inside (.literal (Parser.numberLiteral x)) t ∧
        (∀ (setting : Setting) depth context scope frames,
          (eval setting (depth + 1) (.literal (Parser.numberLiteral x)) context scope).run frames =
            .ok (some (Parser.numberLiteral x), frames)) ∧
        ∃ before s w q, source.toList = before ++ s ∧ size before = p ∧ Numeral.Longest s w q ∧
          LiteralOf q (Parser.numberLiteral x) := by
  obtain ⟨here, later, -, htokens, -⟩ := Parser.exists_whole_of_compileTree h
  have hliterals := literals_of_compileTree h htokens
  refine ⟨_, htokens, hliterals, fun x p hx => ⟨?_, fun _ _ _ _ _ => rfl, ?_⟩⟩
  · rw [← Tree.mem_literals_iff, ← hliterals]
    exact mem_sum_map.2 ⟨_, hx, Multiset.mem_singleton_self _⟩
  · obtain ⟨ts, hpieces, hts⟩ := Lexer.exists_pieces htokens
    rw [hts, List.mem_append, List.mem_singleton] at hx
    obtain ⟨before, c, more, l, hsource, hsize, hl, htoken⟩ :=
      hpieces.exists_lexeme (hx.resolve_right fun hdone => by cases hdone)
    rw [List.append_nil] at hsource
    have hc := Lexer.isDigit_of_lexeme hl htoken
    obtain ⟨w, d, hnumber, hlongest⟩ := Lexer.exists_longest hc more
    rw [Lexer.lexeme_digit hc, hnumber] at hl
    cases hl
    cases htoken
    exact ⟨before, c :: more, w, d.value, hsource, (Nat.zero_add _).symm.trans hsize, hlongest,
      literalOf_numberLiteral d⟩

/-- Two and a half times ten is the literal of 25. -/
theorem twenty_five_is_a_double : ∃ ts x,
    compileTree "2.5e1" = .ok (.literal (.number (.whole 25 (by decide)))) ∧
      tokens "2.5e1" = .ok ts ∧ ⟨.number x, 0⟩ ∈ ts ∧
        literalsIn ts = {.number (.whole 25 (by decide))} ∧
        ∃ w q, Numeral.Longest "2.5e1".toList w q ∧ LiteralOf q (Parser.numberLiteral x) := by
  have hcompile : compileTree "2.5e1" = .ok (.literal (.number (.whole 25 (by decide)))) := by
    have hwhole : Tree.whole 25 = .literal (.number (.whole 25 (by decide))) :=
      whole_eq (by decide) (by decide)
    rw [← hwhole]
    rfl
  have htokens : tokens "2.5e1" =
      .ok [⟨.number (Decimal.toBinary64 false ⟨25, 0⟩), 0⟩, ⟨.done, 5⟩] := by rfl
  obtain ⟨ts, hts, hliterals, hnumbers⟩ := number_literals_are_nearest_doubles hcompile
  cases htokens.symm.trans hts
  obtain ⟨-, -, before, s, w, q, hsource, hsize, hlongest, hliteral⟩ :=
    hnumbers _ 0 List.mem_cons_self
  have hbefore : before = [] := by
    cases before with
    | nil => rfl
    | cons c before => exact absurd hsize (Nat.add_pos_left c.utf8Size_pos _).ne'
  rw [hbefore, List.nil_append] at hsource
  exact ⟨_, _, hcompile, htokens, List.mem_cons_self, hliterals, w, q, hsource ▸ hlongest, hliteral⟩

/-- A number that is too large compiles to null, on every document, where the same double is an
error as the result of arithmetic. -/
theorem large_number_is_null :
    Numeral "1e400".toList (10 ^ 400) ∧ overflow ≤ 10 ^ 400 ∧
      compileTree "1e400" = .ok (.literal .null) ∧
      (∀ now input, result now (.literal .null) input = .ok .null) ∧
      numberResult (Decimal.toBinary64 false ⟨1, 400⟩) = .error .numberOutOfRange := by
  have hoverflow : overflow ≤ 10 ^ 400 := by
    have hpow : ((2 ^ 1024 : ℕ) : ℚ) ≤ (10 ^ 400 : ℕ) :=
      Nat.cast_le.2 (Magnitude.two_pow_le_ten_pow (by decide))
    rw [Nat.cast_pow, Nat.cast_pow, Nat.cast_ofNat, Nat.cast_ofNat] at hpow
    exact (sub_le_self _ (pow_nonneg (by decide) _)).trans hpow
  have hvalue : Decimal.value ⟨1, 400⟩ = 10 ^ 400 := by
    rw [Decimal.value, Nat.cast_one, one_mul, zpow_ofNat]
  have hinfinite : Decimal.toBinary64 false ⟨1, 400⟩ = .infinite false :=
    Decimal.toBinary64_of_overflow (hvalue ▸ hoverflow) false
  have hcompile : compileTree "1e400" =
      .ok (.literal (Parser.numberLiteral (Decimal.toBinary64 false ⟨1, 400⟩))) := by rfl
  have hnumeral : Numeral (['1'] ++ ([] ++ 'e' :: ['4', '0', '0']))
      ((decimal ['1'] + 0) * 10 ^ (decimal ['4', '0', '0'] : ℤ)) :=
    .mk (by decide) .none (.plain (.inl rfl) (by decide))
  have hpower : decimal ['4', '0', '0'] = 400 := by decide
  have hdigit : decimal ['1'] = 1 := by decide
  rw [hpower, hdigit, Nat.cast_one, add_zero, one_mul, zpow_natCast] at hnumeral
  rw [hinfinite] at hcompile ⊢
  exact ⟨hnumeral, hoverflow, hcompile, fun _ _ => rfl, rfl⟩

end Expression

end Reshape
