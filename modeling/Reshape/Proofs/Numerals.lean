/-
# Numerals

A numeral is whole digits, digits after a point and an exponent, of which the last two may be
missing (`Written`).  The reader finds these parts again, provided that what comes behind does
not go on with the number (`number_yields`).

Integers and doubles are written as such numerals (`exists_written`), so one lemma serves for
both.  The numeral written for a double stands for the shortest decimal that denotes it: the
layout moves the point and puts zeros on either side, and the exponent makes up for that
(`exists_positional`, `exists_scientific`).
-/
import Reshape.Proofs.Scanning
import Reshape.Proofs.Shortest

namespace Reshape.Json.Reader

open Text (Ends isDigit)
open Decimal (digitChars)

/-! ## Parts of a numeral -/

/-- A character that goes on with a number. -/
def goesOn (c : Char) : Bool := isDigit c || c == '.' || c == 'e' || c == 'E'

/-- What comes next does not go on with a number. -/
def NumberEnds (rest : List Char) : Prop := Ends goesOn rest

theorem NumberEnds.digits {rest : List Char} (h : NumberEnds rest) : Ends isDigit rest := by
  intro c hc
  have hgoes := h c hc
  simp only [goesOn, Bool.or_eq_false_iff] at hgoes
  exact hgoes.1.1.1

/-- The parts of a numeral as they are written. -/
structure Written where
  digits : List Char
  fraction? : Option (List Char)
  exponent? : Option Int

namespace Written

/-- The text of a fraction. -/
def fractionChars : Option (List Char) → List Char
  | none => []
  | some fs => '.' :: fs

/-- The text of an exponent. -/
def exponentChars : Option Int → List Char
  | none => []
  | some e => 'e' :: (if e < 0 then '-' else '+') :: digitChars e.natAbs

/-- The text of a numeral. -/
def chars (w : Written) : List Char :=
  w.digits ++ (fractionChars w.fraction? ++ exponentChars w.exponent?)

/-- What is read of a numeral. -/
def numeral (w : Written) : Numeral :=
  ⟨w.digits, w.fraction?.getD [], w.exponent?.getD 0, w.fraction?.isNone && w.exponent?.isNone⟩

/-- The numeral with all its digits as a decimal. -/
def decimal (w : Written) : Decimal :=
  ⟨Text.decimal (w.digits ++ w.fraction?.getD []),
    w.exponent?.getD 0 - (w.fraction?.getD []).length⟩

/-- The whole digits do not start with a superfluous zero, there are digits after a point, and
the exponent is not beyond what is read. -/
structure Proper (w : Written) : Prop where
  digits : ∀ c ∈ w.digits, isDigit c = true
  start : w.digits = ['0'] ∨ ∃ c cs, w.digits = c :: cs ∧ c ≠ '0'
  fraction : ∀ fs ∈ w.fraction?, fs ≠ [] ∧ ∀ c ∈ fs, isDigit c = true
  exponent : ∀ e ∈ w.exponent?, e.natAbs ≤ exponentLimit

/-- A numeral starts with a digit. -/
theorem Proper.exists_cons {w : Written} (hw : w.Proper) :
    ∃ c s, w.chars = c :: s ∧ isDigit c = true := by
  obtain ⟨c, cs, hcs⟩ : ∃ c cs, w.digits = c :: cs := by
    obtain h | ⟨c, cs, h, -⟩ := hw.start
    · exact ⟨_, _, h⟩
    · exact ⟨c, cs, h⟩
  refine ⟨c, _, by rw [chars, hcs]; rfl, hw.digits c ?_⟩
  rw [hcs]
  exact List.mem_cons_self

end Written

open Written

/-! ## Parts read -/

variable {rest : List Char}

theorem wholeDigits_yields {ds s : List Char} (hds : ∀ c ∈ ds, isDigit c = true)
    (hstart : ds = ['0'] ∨ ∃ c cs, ds = c :: cs ∧ c ≠ '0') (hs : Ends isDigit s) (o : Nat) :
    Yields (wholeDigits ⟨ds ++ s, o⟩) ds s := by
  obtain rfl | ⟨c, cs, rfl, hc⟩ := hstart
  · cases s with
    | nil => exact ⟨o + 1, rfl⟩
    | cons x s =>
      have hx : isDigit x = false := hs x rfl
      exact ⟨o + 1, by simp [wholeDigits, Cursor.next, hx]; rfl⟩
  · refine ⟨o + (c :: cs).length, ?_⟩
    have hdigit : isDigit c = true := hds c List.mem_cons_self
    have htake : (c :: (cs ++ s)).takeWhile isDigit = c :: cs := Text.takeWhile_append hds hs
    have hdrop : (c :: (cs ++ s)).dropWhile isDigit = s := Text.dropWhile_append hds hs
    simp [wholeDigits, Cursor.digits, hc, hdigit, htake, hdrop]

theorem fractionDigits_yields {fraction? : Option (List Char)} {s : List Char}
    (hfraction : ∀ fs ∈ fraction?, fs ≠ [] ∧ ∀ c ∈ fs, isDigit c = true) (hs : Ends isDigit s)
    (hpoint : s.head? ≠ some '.') (o : Nat) :
    Yields (fractionDigits ⟨fractionChars fraction? ++ s, o⟩) fraction? s := by
  cases fraction? with
  | none =>
    refine ⟨o, ?_⟩
    rw [fractionDigits]
    split
    · rename_i c cs hrest
      exact absurd (by rw [show s = '.' :: _ from hrest]; rfl) hpoint
    · rfl
  | some fs =>
    obtain ⟨hne, hfs⟩ := hfraction fs rfl
    refine ⟨o + 1 + fs.length, ?_⟩
    simp [fractionChars, fractionDigits, Cursor.next, Cursor.digits, hne,
      Text.takeWhile_append hfs hs, Text.dropWhile_append hfs hs]
    rfl

theorem le_decimalFrom (n : Nat) (ds : List Char) : n ≤ Text.decimalFrom n ds := by
  induction ds generalizing n with
  | nil => exact le_rfl
  | cons d ds ih =>
    have := ih (10 * n + (d.toNat - '0'.toNat))
    show n ≤ Text.decimalFrom (10 * n + (d.toNat - '0'.toNat)) ds
    omega

theorem exponentOverflow?_eq_none {ds : List Char} {taken n : Nat}
    (h : Text.decimalFrom n ds ≤ exponentLimit) : exponentOverflow? taken n ds = none := by
  induction ds generalizing taken n with
  | nil => rfl
  | cons d ds ih =>
    have hd : ¬ exponentLimit < 10 * n + (d.toNat - '0'.toNat) :=
      Nat.not_lt.2 ((le_decimalFrom _ ds).trans h)
    rw [exponentOverflow?, if_neg hd]
    exact ih h

theorem exponentPart_yields {zero : Bool} {exponent? : Option Int} {rest : List Char}
    (hexponent : ∀ e ∈ exponent?, e.natAbs ≤ exponentLimit) (hrest : NumberEnds rest) (o : Nat) :
    Yields (exponentPart zero ⟨exponentChars exponent? ++ rest, o⟩) exponent? rest := by
  cases exponent? with
  | none =>
    refine ⟨o, ?_⟩
    rw [exponentPart]
    cases rest with
    | nil => rfl
    | cons x rest =>
      have hx : goesOn x = false := hrest x rfl
      simp only [goesOn, Bool.or_eq_false_iff] at hx
      simp [exponentChars, hx.1.2, hx.2]
  | some e =>
    obtain ⟨d, ds, hds⟩ := List.exists_cons_of_ne_nil (Text.digitChars_ne_nil e.natAbs)
    have hdigits : ∀ c ∈ d :: ds, isDigit c = true := fun c hc =>
      Text.isDigit_of_mem_digitChars (hds ▸ hc)
    have hd : isDigit d = true := hdigits d List.mem_cons_self
    have hvalue : Text.decimal (d :: ds) = e.natAbs := by rw [← hds, Text.decimal_digitChars]
    have hover : exponentOverflow? 0 0 (d :: ds) = none :=
      exponentOverflow?_eq_none (hvalue.trans_le (hexponent e rfl))
    have htake : (d :: (ds ++ rest)).takeWhile isDigit = d :: ds :=
      Text.takeWhile_append hdigits hrest.digits
    have hdrop : (d :: (ds ++ rest)).dropWhile isDigit = rest :=
      Text.dropWhile_append hdigits hrest.digits
    rcases Int.lt_or_le e 0 with hneg | hpos
    · refine ⟨o + 1 + 1 + (d :: ds).length, ?_⟩
      simp only [exponentChars, if_pos hneg, hds]
      simp [exponentPart, Cursor.next, Cursor.digits, hd, htake, hdrop, hover, hvalue]
      exact ⟨by rw [abs_of_neg hneg, neg_neg], rfl⟩
    · have he : (e.natAbs : Int) = e := by omega
      refine ⟨o + 1 + 1 + (d :: ds).length, ?_⟩
      simp only [exponentChars, if_neg (Int.not_lt.2 hpos), hds]
      simp [exponentPart, Cursor.next, Cursor.digits, hd, htake, hdrop, hover, hvalue, he]
      rfl

/-- The three parts of a numeral are found one after the other. -/
theorem parts_yield {w : Written} (hw : w.Proper) (hrest : NumberEnds rest) (o : Nat) :
    ∃ s₁ s₂ o₁ o₂, wholeDigits ⟨w.chars ++ rest, o⟩ = .ok (w.digits, ⟨s₁, o₁⟩) ∧
      fractionDigits ⟨s₁, o₁⟩ = .ok (w.fraction?, ⟨s₂, o₂⟩) ∧
      ∀ zero, Yields (exponentPart zero ⟨s₂, o₂⟩) w.exponent? rest := by
  have hexponent : Ends isDigit (exponentChars w.exponent? ++ rest) ∧
      (exponentChars w.exponent? ++ rest).head? ≠ some '.' := by
    cases w.exponent? with
    | none =>
      refine ⟨hrest.digits, fun hpoint => ?_⟩
      exact absurd (hrest '.' hpoint) (by decide)
    | some e => exact ⟨fun c hc => by cases hc; rfl, by simp [exponentChars]⟩
  have hfraction : Ends isDigit
      (fractionChars w.fraction? ++ (exponentChars w.exponent? ++ rest)) := by
    cases w.fraction? with
    | none => exact hexponent.1
    | some fs => exact fun c hc => by cases hc; rfl
  obtain ⟨o₁, h₁⟩ := wholeDigits_yields hw.digits hw.start hfraction o
  obtain ⟨o₂, h₂⟩ := fractionDigits_yields hw.fraction hexponent.1 hexponent.2 o₁
  refine ⟨_, _, o₁, o₂, ?_, h₂, fun _ => exponentPart_yields hw.exponent hrest o₂⟩
  rwa [chars, List.append_assoc, List.append_assoc]

/-- **A written numeral is read as the number it denotes.** -/
theorem number_yields {w : Written} (hw : w.Proper) {negative : Bool} {n : Number}
    (hn : w.numeral.number? negative = some n) (hrest : NumberEnds rest) (o : Nat) :
    Yields (number negative ⟨w.chars ++ rest, o⟩) (.number n) rest := by
  obtain ⟨s₁, s₂, o₁, o₂, h₁, h₂, h₃⟩ := parts_yield hw hrest o
  obtain ⟨o₃, h₃⟩ := h₃ ((w.digits ++ w.fraction?.getD []).all (· == '0'))
  have hn' : Numeral.number? negative ⟨w.digits, w.fraction?.getD [], w.exponent?.getD 0,
      w.fraction?.isNone && w.exponent?.isNone⟩ = some n := hn
  refine ⟨o₃, ?_⟩
  simp only [number, h₁, h₂, h₃, hn', bind, Except.bind]
  rfl

/-- A written numeral that denotes no number is refused. -/
theorem number_breaks {w : Written} (hw : w.Proper) {negative : Bool}
    (hn : w.numeral.number? negative = none) (hrest : NumberEnds rest) (o : Nat) :
    Breaks (number negative ⟨w.chars ++ rest, o⟩) .numberOutOfRange := by
  obtain ⟨s₁, s₂, o₁, o₂, h₁, h₂, h₃⟩ := parts_yield hw hrest o
  obtain ⟨o₃, h₃⟩ := h₃ ((w.digits ++ w.fraction?.getD []).all (· == '0'))
  have hn' : Numeral.number? negative ⟨w.digits, w.fraction?.getD [], w.exponent?.getD 0,
      w.fraction?.isNone && w.exponent?.isNone⟩ = none := hn
  refine ⟨o₃, ?_⟩
  simp only [number, h₁, h₂, h₃, hn', bind, Except.bind]
  rfl

/-! ## Written numbers -/

/-- The digits of a number are whole digits as they must be. -/
theorem digitChars_start (n : Nat) :
    digitChars n = ['0'] ∨ ∃ c cs, digitChars n = c :: cs ∧ c ≠ '0' := by
  rcases Nat.eq_zero_or_pos n with rfl | hpos
  · exact Or.inl Text.digitChars_zero
  · exact Or.inr (Text.exists_cons_of_pos hpos)

/-- A numeral without point and exponent that fits 64 bits is an integer. -/
theorem number?_whole {n : Int} (h : Fits64 n) :
    (Written.mk (digitChars n.natAbs) none none).numeral.number? (decide (n < 0)) =
      some (.whole n h) := by
  have hdigits : Text.decimal (digitChars n.natAbs) = n.natAbs := Text.decimal_digitChars _
  have hvalue : (if decide (n < 0) = true then -(n.natAbs : Int) else n.natAbs) = n := by
    split
    · rename_i hn
      have := of_decide_eq_true hn
      omega
    · rename_i hn
      have : ¬ n < 0 := fun h => hn (decide_eq_true h)
      omega
  simp only [Numeral.number?, Written.numeral, hdigits, hvalue]
  rw [dif_pos ⟨rfl, h, fun hn => by have := of_decide_eq_true hn; omega⟩]

/-- A numeral with a point or an exponent is a double. -/
theorem number?_real {w : Written} (hw : w.numeral.isWhole = false) {x : Finite}
    (h : w.numeral.toBinary64 x.negative = .finite x) :
    w.numeral.number? x.negative = some (.real x) := by
  rw [Numeral.number?, dif_neg (by simp [hw]), h]
  rfl

/-- A numeral stands for a decimal: it has a point or an exponent, and its digits are those of
the decimal, or, if that is whole, those and the zeros up to the place behind the point. -/
structure Written.StandsFor (w : Written) (d : Decimal) : Prop where
  proper : w.Proper
  real : w.numeral.isWhole = false
  decimal : w.decimal = d ∨
    0 ≤ d.exponent ∧ w.decimal = ⟨10 ^ (d.exponent.toNat + 1) * d.digits, -1⟩

theorem isDigit_of_mem_zeros {k : Nat} {c : Char} (h : c ∈ List.replicate k '0') :
    isDigit c = true := by
  rw [List.eq_of_mem_replicate h]
  rfl

/-- The point among the digits. -/
theorem standsFor_among {n places : Nat} (hn : 0 < n) (hplaces : 0 < places)
    (hlen : places < (digitChars n).length) :
    (Written.mk ((digitChars n).take ((digitChars n).length - places))
      (some ((digitChars n).drop ((digitChars n).length - places))) none).StandsFor
        ⟨n, -places⟩ := by
  have hdrop : ((digitChars n).drop ((digitChars n).length - places)).length = places := by
    rw [List.length_drop]
    omega
  refine ⟨⟨?_, ?_, ?_, ?_⟩, rfl, ?_⟩
  · exact fun c hc => Text.isDigit_of_mem_digitChars (List.mem_of_mem_take hc)
  · obtain ⟨c, cs, hcs, hc⟩ := Text.exists_cons_of_pos hn
    obtain ⟨k, hk⟩ : ∃ k, (digitChars n).length - places = k + 1 :=
      ⟨(digitChars n).length - places - 1, by omega⟩
    exact Or.inr ⟨c, cs.take k, by rw [hk, hcs, List.take_succ_cons], hc⟩
  · intro fs hfs
    cases hfs
    refine ⟨fun hnil => ?_, fun c hc => Text.isDigit_of_mem_digitChars (List.mem_of_mem_drop hc)⟩
    rw [hnil] at hdrop
    exact hplaces.ne hdrop
  · exact fun e he => absurd he (by simp)
  · left
    simp only [Written.decimal, Option.getD_some, Option.getD_none, List.take_append_drop, hdrop,
      Text.decimal_digitChars, Int.zero_sub]

/-- The point before the digits, and zeros between them. -/
theorem standsFor_before {n places : Nat} (hlen : (digitChars n).length ≤ places) :
    (Written.mk ['0']
      (some (List.replicate (places - (digitChars n).length) '0' ++ digitChars n))
        none).StandsFor ⟨n, -places⟩ := by
  have hlength : (List.replicate (places - (digitChars n).length) '0' ++
      digitChars n).length = places := by
    rw [List.length_append, List.length_replicate]
    omega
  refine ⟨⟨?_, Or.inl rfl, ?_, ?_⟩, rfl, ?_⟩
  · exact fun c hc => isDigit_of_mem_zeros (k := 1) hc
  · intro fs hfs
    cases hfs
    refine ⟨fun hnil => ?_, fun c hc => ?_⟩
    · exact Text.digitChars_ne_nil n (List.append_eq_nil_iff.1 hnil).2
    · exact (List.mem_append.1 hc).elim isDigit_of_mem_zeros Text.isDigit_of_mem_digitChars
  · exact fun e he => absurd he (by simp)
  · left
    have hdecimal : Text.decimal (['0'] ++ (List.replicate (places - (digitChars n).length) '0'
        ++ digitChars n)) = n := by
      rw [← List.append_assoc, show ['0'] = List.replicate 1 '0' from rfl,
        List.replicate_append_replicate, Text.decimal_zeros_append, Text.decimal_digitChars]
    simp only [Written.decimal, Option.getD_some, Option.getD_none, hlength, hdecimal,
      Int.zero_sub]

/-- The point behind the digits and the zeros that follow them, and a zero behind the point. -/
theorem standsFor_behind {n k : Nat} (hzero : n = 0 → k = 0) :
    (Written.mk (digitChars n ++ List.replicate k '0') (some ['0']) none).StandsFor ⟨n, k⟩ := by
  refine ⟨⟨?_, ?_, ?_, ?_⟩, rfl, ?_⟩
  · exact fun c hc =>
      (List.mem_append.1 hc).elim Text.isDigit_of_mem_digitChars isDigit_of_mem_zeros
  · rcases Nat.eq_zero_or_pos n with rfl | hpos
    · rw [hzero rfl, List.replicate_zero, List.append_nil]
      exact Or.inl Text.digitChars_zero
    · obtain ⟨c, cs, hcs, hc⟩ := Text.exists_cons_of_pos hpos
      exact Or.inr ⟨c, cs ++ List.replicate k '0', by rw [hcs, List.cons_append], hc⟩
  · intro fs hfs
    cases hfs
    exact ⟨by simp, fun c hc => isDigit_of_mem_zeros (k := 1) hc⟩
  · exact fun e he => absurd he (by simp)
  · right
    have hdecimal : Text.decimal (digitChars n ++ List.replicate k '0' ++ ['0']) =
        10 ^ (k + 1) * n := by
      rw [List.append_assoc, show ['0'] = List.replicate 1 '0' from rfl,
        List.replicate_append_replicate, Text.decimal_append_zeros, Text.decimal_digitChars]
    refine ⟨Int.natCast_nonneg k, ?_⟩
    simp only [Written.decimal, Option.getD_some, Option.getD_none, hdecimal, Int.toNat_natCast]
    rfl

/-- With all its places a decimal is written as a numeral that stands for it. -/
theorem exists_positional {d : Decimal} (h : d.digits = 0 → d.exponent = 0) :
    ∃ w : Written, w.StandsFor d ∧ w.chars = Decimal.positional true d := by
  obtain ⟨n, e⟩ := d
  simp only at h
  rcases Int.lt_or_le e 0 with hneg | hpos
  · obtain ⟨places, rfl⟩ : ∃ places : Nat, e = -places := ⟨(-e).toNat, by omega⟩
    have hnat : (- -(places : Int)).toNat = places := by omega
    by_cases hlen : places < (digitChars n).length
    · have hn : n ≠ 0 := fun h0 => by
        have := h h0
        omega
      refine ⟨_, standsFor_among (Nat.pos_of_ne_zero hn) (by omega) hlen, ?_⟩
      simp only [chars, fractionChars, exponentChars, List.append_nil, Decimal.positional,
        if_neg (Int.not_le.2 hneg), hnat, if_pos hlen]
    · refine ⟨_, standsFor_before (Nat.not_lt.1 hlen), ?_⟩
      simp only [chars, fractionChars, exponentChars, List.append_nil, Decimal.positional,
        if_neg (Int.not_le.2 hneg), hnat, if_neg hlen, List.cons_append, List.nil_append]
  · obtain ⟨k, rfl⟩ : ∃ k : Nat, e = k := ⟨e.toNat, by omega⟩
    refine ⟨_, standsFor_behind fun h0 => by exact_mod_cast h h0, ?_⟩
    simp only [chars, fractionChars, exponentChars, List.append_nil, Decimal.positional,
      if_pos hpos, Int.toNat_natCast, if_true]

/-- With an exponent a decimal is written as a numeral that stands for it. -/
theorem exists_scientific {d : Decimal}
    (h : (d.exponent + Decimal.width d.digits - 1).natAbs ≤ exponentLimit) :
    ∃ w : Written, w.StandsFor d ∧ w.chars = Decimal.scientific d := by
  obtain ⟨n, e⟩ := d
  have hds : ∀ c ∈ digitChars n, isDigit c = true := fun c => Text.isDigit_of_mem_digitChars
  have hvalue := Text.decimal_digitChars n
  have hstart := digitChars_start n
  have hwidth : Decimal.width n = (digitChars n).length := rfl
  simp only [hwidth] at h
  obtain ⟨c, cs, hcs⟩ := List.exists_cons_of_ne_nil (Text.digitChars_ne_nil n)
  simp only [Decimal.scientific, hcs] at *
  refine ⟨⟨[c], if cs = [] then none else some cs, some (e + (c :: cs).length - 1)⟩,
    ⟨⟨?_, ?_, ?_, ?_⟩, by simp [Written.numeral], ?_⟩, ?_⟩
  · exact fun x hx => hds x (List.mem_singleton.1 hx ▸ List.mem_cons_self)
  · obtain hzero | ⟨x, xs, hxs, hx⟩ := hstart
    · exact Or.inl (by rw [(List.cons.inj hzero).1])
    · exact Or.inr ⟨c, [], rfl, (List.cons.inj hxs).1 ▸ hx⟩
  · intro fs hfs
    split at hfs
    · cases hfs
    · rename_i hne
      cases hfs
      exact ⟨hne, fun x hx => hds x (List.mem_cons_of_mem c hx)⟩
  · intro e' he'
    cases he'
    exact h
  · left
    have hfraction : (if cs = [] then none else some cs).getD [] = cs := by
      split
      · rename_i hnil
        rw [hnil]
        rfl
      · rfl
    simp only [Written.decimal, Option.getD_some, hfraction, List.singleton_append, hvalue,
      List.length_cons]
    congr 1
    omega
  · cases cs <;> simp [chars, fractionChars, exponentChars]

/-- The text of a finite double is a numeral that stands for its shortest decimal. -/
theorem exists_written_real (x : Finite) :
    ∃ w : Written, w.StandsFor (Decimal.shortest x.units) ∧
      Decimal.document.write x = (if x.negative then ['-'] else []) ++ w.chars := by
  have hread := Decimal.toBinary64_shortest x
  by_cases hlayout : Decimal.document.isPositional (Decimal.shortest x.units) = true
  · obtain ⟨w, hw, hchars⟩ := exists_positional (d := Decimal.shortest x.units) fun h => by
      rw [(Decimal.shortest_eq_of_digits h).2]
    refine ⟨w, hw, ?_⟩
    rw [hchars, Decimal.Layout.write, if_pos hlayout]
    rfl
  · have hdigits : (Decimal.shortest x.units).digits ≠ 0 := by
      intro hzero
      exact hlayout (by simp [Decimal.Layout.isPositional, hzero])
    have hunits : x.units ≠ 0 := by
      intro hzero
      exact hdigits (by rw [hzero]; rfl)
    obtain ⟨hlo, hhi⟩ := Decimal.exponent_bounds hread hunits
    have hlimit : exponentLimit = 2147483647 := rfl
    obtain ⟨w, hw, hchars⟩ := exists_scientific (d := Decimal.shortest x.units) (by omega)
    refine ⟨w, hw, ?_⟩
    rw [hchars, Decimal.Layout.write, if_neg hlayout]

/-- The text of an integer is a numeral that denotes it. -/
theorem exists_written_whole (n : Int) (h : Fits64 n) :
    ∃ w : Written, w.Proper ∧ w.numeral.number? (decide (n < 0)) = some (.whole n h) ∧
      writeInt n = (if decide (n < 0) then ['-'] else []) ++ w.chars := by
  refine ⟨⟨digitChars n.natAbs, none, none⟩, ⟨?_, ?_, ?_, ?_⟩, number?_whole h, ?_⟩
  · exact fun c => Text.isDigit_of_mem_digitChars
  · exact digitChars_start _
  · exact fun fs hfs => absurd hfs (by simp)
  · exact fun e he => absurd he (by simp)
  · simp [writeInt, chars, fractionChars, exponentChars]

/-- **The text of a number is a numeral with its sign.** -/
theorem exists_written (n : Number) :
    ∃ (negative : Bool) (w : Written), w.Proper ∧
      writeNumber n = (if negative then ['-'] else []) ++ w.chars := by
  cases n with
  | whole n h =>
    obtain ⟨w, hw, -, hwrite⟩ := exists_written_whole n h
    exact ⟨_, w, hw, hwrite⟩
  | real x =>
    obtain ⟨w, hw, hwrite⟩ := exists_written_real x
    exact ⟨_, w, hw.proper, hwrite⟩

end Reshape.Json.Reader
