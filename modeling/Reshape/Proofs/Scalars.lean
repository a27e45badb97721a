/-
# Texts that are read as truth values and numbers

A variable with a prefix whose text is a word for truth or a numeral gives that value and not the
text (`Value.ofVariable`).  A setting that is a text gets the value written as text again
(`readBack`), which need not be the same text: a numeral loses signs, zeros and exponents that its
number does not need.

Neither what is read as such a value nor what is written for one has a blank character or a slash
(`isSolid_or_text`), so normalizing leaves both as they are.
-/
import Reshape.Proofs.Digits
import Reshape.Proofs.Integers
import Reshape.Proofs.Lookahead
import Reshape.Proofs.Normalizing

namespace Reshape

namespace Text

variable {s t : List Char} {c d : Char}

/-! ## Texts without blanks and slashes -/

/-- No character of the text is blank or a slash. -/
def IsSolid (s : List Char) : Prop := ∀ c ∈ s, isBlank c = false ∧ c ≠ '/'

instance (s : List Char) : Decidable (IsSolid s) :=
  List.decidableBAll (fun c => isBlank c = false ∧ c ≠ '/') s

theorem isSolid_nil : IsSolid [] := fun c hc => by cases hc

theorem isSolid_cons : IsSolid (c :: s) ↔ (isBlank c = false ∧ c ≠ '/') ∧ IsSolid s :=
  List.forall_mem_cons

theorem isSolid_append : IsSolid (s ++ t) ↔ IsSolid s ∧ IsSolid t :=
  List.forall_mem_append

/-- The visible characters of ASCII are not blank. -/
theorem isBlank_of_visible (hlow : 32 < c.toNat) (hhigh : c.toNat < 127) : isBlank c = false := by
  simp [isBlank, Ranges.hasChar, Ranges.has, blankRanges]
  omega

theorem isSolid_of_digits (h : ∀ c ∈ s, isDigit c = true) : IsSolid s := by
  intro c hc
  have hdigit := h c hc
  simp only [isDigit, Bool.and_eq_true, decide_eq_true_eq] at hdigit
  have hlow : '0'.toNat ≤ c.toNat := hdigit.1
  have hhigh : c.toNat ≤ '9'.toNat := hdigit.2
  have hends : '0'.toNat = 48 ∧ '9'.toNat = 57 ∧ '/'.toNat = 47 := by decide
  refine ⟨isBlank_of_visible (by omega) (by omega), ?_⟩
  rintro rfl
  omega

/-- Normalizing leaves a text as it is that has no blanks and no slashes. -/
theorem trimmed_of_isSolid {s : String} (h : IsSolid s.toList) : trimmed s = s :=
  trimmed_of_isTrim (isTrim_of_no_blanks fun c hc => (h c hc).1)

/-! ## Case -/

/-- Blank characters and slashes have no case. -/
theorem lowerChar_of_isBlank_or_slash (h : ¬ (isBlank c = false ∧ c ≠ '/')) :
    lowerChar c = [c] ∧ c ≠ 'Σ' := by
  have hblank : ∀ i ∈ blankRanges, ∀ k < i.2 + 1 - i.1,
      lowerChar (Char.ofNat (i.1 + k)) = [Char.ofNat (i.1 + k)] ∧ Char.ofNat (i.1 + k) ≠ 'Σ' := by
    decide +kernel
  by_cases hc : isBlank c = true
  · obtain ⟨i, hi, hlow, hhigh⟩ := Expression.Lexer.exists_of_has hc
    have hchar := hblank i hi (c.toNat - i.1) (by omega)
    rwa [Nat.add_sub_cancel' hlow, Char.ofNat_toNat] at hchar
  · have hslash : c = '/' := by
      by_contra hne
      exact h ⟨Bool.eq_false_iff.2 hc, hne⟩
    subst hslash
    decide

theorem mem_lowerFrom {before : List Char} (hc : c ∈ s) (hlower : lowerChar c = [c])
    (hsigma : c ≠ 'Σ') : c ∈ lowerFrom before s := by
  induction s generalizing before with
  | nil => cases hc
  | cons d s ih =>
    rw [lowerFrom, List.mem_append]
    rcases List.mem_cons.1 hc with rfl | hs
    · left
      rw [if_neg (by simpa using hsigma), hlower]
      exact List.mem_singleton_self c
    · exact .inr (ih hs)

/-- A text has its blanks and slashes in any case. -/
theorem isSolid_of_lower {s : String} (h : IsSolid (lower s).toList) : IsSolid s.toList := by
  intro c hc
  by_contra hnot
  obtain ⟨hlower, hsigma⟩ := lowerChar_of_isBlank_or_slash hnot
  refine hnot (h c ?_)
  rw [lower, String.toList_ofList]
  exact mem_lowerFrom hc hlower hsigma

/-! ## Whole numbers -/

theorem isSolid_of_digits? {n : ℕ} (h : digits? s = some n) : IsSolid s := by
  unfold digits? at h
  split_ifs at h with hs
  simp only [Bool.or_eq_true, Bool.not_eq_true', not_or, Bool.not_eq_false] at hs
  exact isSolid_of_digits (List.all_eq_true.1 hs.2)

theorem isSolid_of_natural? {n : ℕ} (h : natural? s = some n) : IsSolid s := by
  unfold natural? at h
  split at h
  · exact isSolid_cons.2 ⟨by decide, isSolid_of_digits? h⟩
  · exact isSolid_of_digits? h

theorem isSolid_of_int64? {n : Int64} (h : int64? s = some n) : IsSolid s := by
  obtain ⟨i, hi, -⟩ := Option.bind_eq_some_iff.1 h
  unfold integer? at hi
  split at hi
  · obtain ⟨k, hk, -⟩ := Option.map_eq_some_iff.1 hi
    obtain ⟨m, hm, -⟩ := Option.bind_eq_some_iff.1 hk
    exact isSolid_cons.2 ⟨by decide, isSolid_of_digits? hm⟩
  · obtain ⟨k, hk, -⟩ := Option.map_eq_some_iff.1 hi
    exact isSolid_of_natural? hk

theorem isSolid_digitChars (n : ℕ) : IsSolid (Decimal.digitChars n) :=
  isSolid_of_digits fun _ => isDigit_of_mem_digitChars

theorem isSolid_writeInt (n : ℤ) : IsSolid (Json.writeInt n) := by
  refine isSolid_append.2 ⟨?_, isSolid_digitChars _⟩
  split
  · exact isSolid_cons.2 ⟨by decide, isSolid_nil⟩
  · exact isSolid_nil

end Text

open Text (IsSolid isDigit)

/-- Normalizing leaves an address as it is that has no blanks and no slashes. -/
theorem normalAddress_of_isSolid {s : String} (h : IsSolid s.toList) : normalAddress s = s := by
  refine normalAddress_eq_self_iff.2
    ⟨Text.isTrim_of_no_blanks fun c hc => (h c hc).1, fun hlast => ?_⟩
  exact (h '/' (List.mem_of_getLast? hlast)).2 rfl

/-! ## Doubles -/

namespace Binary64

variable {s : List Char} {negative : Bool}

/-- A letter of a numeral is neither a blank nor a slash in any case. -/
theorem isSolid_of_map_lowerLetter (h : IsSolid (s.map lowerLetter)) : IsSolid s := by
  intro c hc
  have hlower := h _ (List.mem_map_of_mem hc)
  unfold lowerLetter at hlower
  split_ifs at hlower with hletter
  · simp only [Bool.and_eq_true, decide_eq_true_eq] at hletter
    have hlow : 'A'.toNat ≤ c.toNat := hletter.1
    have hhigh : c.toNat ≤ 'Z'.toNat := hletter.2
    have hends : 'A'.toNat = 65 ∧ 'Z'.toNat = 90 ∧ '/'.toNat = 47 := by decide
    refine ⟨Text.isBlank_of_visible (by omega) (by omega), ?_⟩
    rintro rfl
    omega
  · exact hlower

theorem isSolid_of_exponent? {e : ℤ} (h : exponent? s = some e) : IsSolid s := by
  unfold exponent? at h
  split at h
  · exact Text.isSolid_nil
  · rename_i c rest
    split_ifs at h with hletter
    have hhead : Text.isBlank c = false ∧ c ≠ '/' := by
      simp only [Bool.or_eq_true, beq_iff_eq] at hletter
      rcases hletter with rfl | rfl <;> decide
    refine Text.isSolid_cons.2 ⟨hhead, ?_⟩
    split at h
    rename_i digits hsign
    split at h
    · cases h
    rename_i hdigits
    simp only [Bool.or_eq_true, Bool.not_eq_true', not_or, Bool.not_eq_false] at hdigits
    have hsolid : IsSolid digits := Text.isSolid_of_digits (List.all_eq_true.1 hdigits.2)
    split at hsign
    · cases hsign
      exact Text.isSolid_cons.2 ⟨by decide, hsolid⟩
    · cases hsign
      exact Text.isSolid_cons.2 ⟨by decide, hsolid⟩
    · cases hsign
      exact hsolid

theorem isSolid_takeWhile_isDigit (s : List Char) : IsSolid (s.takeWhile isDigit) :=
  Text.isSolid_of_digits fun _ => List.mem_takeWhile_imp

/-- The text is solid if what is behind its first digits is. -/
theorem isSolid_of_drop (h : IsSolid (s.drop (s.takeWhile isDigit).length)) : IsSolid s := by
  rw [List.prefix_append_drop (List.takeWhile_prefix (l := s) isDigit)]
  exact Text.isSolid_append.2 ⟨isSolid_takeWhile_isDigit s, h⟩

theorem isSolid_of_magnitude? {x : Binary64} (h : magnitude? negative s = some x) :
    IsSolid s := by
  unfold magnitude? at h
  simp only at h
  split_ifs at h with hinf hnan
  · refine isSolid_of_map_lowerLetter ?_
    simp only [Bool.or_eq_true, beq_iff_eq] at hinf
    rcases hinf with hinf | hinf
    · rw [hinf]
      decide
    · rw [hinf]
      decide
  · refine isSolid_of_map_lowerLetter ?_
    rw [beq_iff_eq.1 hnan]
    decide
  · obtain ⟨e, he, -⟩ := Option.map_eq_some_iff.1 h
    refine isSolid_of_drop ?_
    split at he
    · rename_i more hmore
      rw [hmore]
      exact Text.isSolid_cons.2 ⟨by decide, isSolid_of_drop (isSolid_of_exponent? he)⟩
    · exact isSolid_of_exponent? he

theorem isSolid_of_ofText? {x : Binary64} (h : ofText? s = some x) : IsSolid s := by
  unfold ofText? at h
  split at h
  · exact Text.isSolid_cons.2 ⟨by decide, isSolid_of_magnitude? h⟩
  · exact Text.isSolid_cons.2 ⟨by decide, isSolid_of_magnitude? h⟩
  · exact isSolid_of_magnitude? h

/-- With all its places a double is written without blanks and slashes, and not as nothing. -/
theorem isSolid_positional (d : Decimal) :
    IsSolid (Decimal.positional false d) ∧ Decimal.positional false d ≠ [] := by
  have hdigits : IsSolid (Decimal.digitChars d.digits) := Text.isSolid_digitChars _
  have hzeros : ∀ k, IsSolid (List.replicate k '0') := fun k c hc => by
    rw [List.eq_of_mem_replicate hc]
    decide
  have hne : Decimal.digitChars d.digits ≠ [] := Text.digitChars_ne_nil _
  unfold Decimal.positional
  simp only
  split
  · rw [if_neg Bool.false_ne_true, List.append_nil]
    exact ⟨Text.isSolid_append.2 ⟨hdigits, hzeros _⟩, List.append_ne_nil_of_left_ne_nil hne _⟩
  · split
    · refine ⟨Text.isSolid_append.2 ⟨fun c hc => hdigits c (List.mem_of_mem_take hc),
        Text.isSolid_cons.2 ⟨by decide, fun c hc => hdigits c (List.mem_of_mem_drop hc)⟩⟩, ?_⟩
      simp
    · refine ⟨Text.isSolid_cons.2 ⟨by decide, Text.isSolid_cons.2 ⟨by decide,
        Text.isSolid_append.2 ⟨hzeros _, hdigits⟩⟩⟩, ?_⟩
      simp

theorem isSolid_plainText (x : Binary64) : IsSolid x.plainText.toList ∧ x.plainText ≠ "" := by
  cases x with
  | finite x =>
    obtain ⟨hsolid, hne⟩ := isSolid_positional (Decimal.shortest x.units)
    have hwrite : (plainText (.finite x)).toList =
        (if x.negative then ['-'] else []) ++
          Decimal.positional false (Decimal.shortest x.units) := by
      show (String.ofList (Decimal.plain.write x)).toList = _
      rw [String.toList_ofList, Decimal.Layout.write]
      simp [Decimal.Layout.isPositional, Decimal.plain]
    have hsign : IsSolid (if x.negative then ['-'] else []) := by
      split
      · decide
      · exact Text.isSolid_nil
    rw [ne_eq, ← String.toList_eq_nil_iff, hwrite]
    exact ⟨Text.isSolid_append.2 ⟨hsign, hsolid⟩, List.append_ne_nil_of_right_ne_nil _ hne⟩
  | infinite negative => cases negative <;> exact ⟨by decide, by decide⟩
  | nan => exact ⟨by decide, by decide⟩

end Binary64

/-! ## Values of variables -/

namespace Settings.Value

/-- The text that a text setting gets from a variable with a prefix. -/
def readBack (s : String) : String := (ofVariable s).text?.getD s

theorem isSolid_toString_int64 (n : Int64) :
    IsSolid (toString n.toInt).toList ∧ toString n.toInt ≠ "" := by
  have hfits : Fits64 n.toInt := by
    have hlow := Int64.le_toInt n
    have hhigh := Int64.toInt_lt n
    unfold Fits64 Word.minInt64 Word.maxUInt64
    omega
  have htext : toString n.toInt = String.ofList (Json.writeInt n.toInt) :=
    (Number.text_whole hfits).symm
  rw [ne_eq, ← String.toList_eq_nil_iff, htext, String.toList_ofList]
  refine ⟨Text.isSolid_writeInt _, List.append_ne_nil_of_right_ne_nil _ ?_⟩
  exact Text.digitChars_ne_nil _

/-- **What is read as another value than a text has no blanks and no slashes, and neither has the
text of that value.** -/
theorem isSolid_or_text (s : String) : ofVariable s = text s ∨
    ∃ t, (ofVariable s).text? = some t ∧ IsSolid s.toList ∧ IsSolid t.toList ∧ t ≠ "" := by
  unfold ofVariable
  simp only
  split_ifs with htrue hfalse
  · refine .inr ⟨"true", rfl, Text.isSolid_of_lower ?_, by decide, by decide⟩
    rw [htrue]
    decide
  · refine .inr ⟨"false", rfl, Text.isSolid_of_lower ?_, by decide, by decide⟩
    rw [hfalse]
    decide
  · split
    · rename_i n hn
      exact .inr ⟨_, rfl, Text.isSolid_of_int64? hn, isSolid_toString_int64 n⟩
    · split
      · rename_i x hx
        exact .inr ⟨_, rfl, Binary64.isSolid_of_ofText? hx, Binary64.isSolid_plainText x⟩
      · exact .inl rfl

end Settings.Value

end Reshape
