/-
# Parts of texts

`$substring` cuts a text at two places.  A place is counted from the front or from the end and kept
within the text, and sums of places are kept within a word; where a word can count the characters,
this changes none of the sums that matter (`beginningOf_eq`, `endingOf_eq`).  So the places lie in
the text and in order, and what is cut out is the part between them (`isPart_substringOf`).

Integers that agree give the same places (`place_congr`), so the places are those of the whole parts
of the numbers, however large these are.
-/
import Mathlib.Tactic
import Reshape.Proofs.Arguments

namespace Reshape.Expression.Library

open Binary64 (clamp clampInt64)

/-! ## Places in a text -/

/-- The place in a text of `n` characters that an integer stands for: counted from the end if it is
negative. -/
def place (n : ℕ) (i : ℤ) : ℤ := if 0 ≤ i then min i n else max (n + i) 0

/-- The place up to which characters are taken from the place `b` on, in a text of `n`. -/
def placeAfter (n : ℕ) (b : ℤ) : (length? : Option ℤ) → ℤ
  | none => n
  | some l => if l ≤ 0 then b else min (b + l) n

variable {n : ℕ} {b i j : ℤ}

theorem place_bounds (n : ℕ) (i : ℤ) : 0 ≤ place n i ∧ place n i ≤ n := by
  unfold place
  split_ifs <;> omega

theorem placeAfter_bounds (hb : b ≤ n) (length? : Option ℤ) :
    b ≤ placeAfter n b length? ∧ placeAfter n b length? ≤ n := by
  cases length? with
  | none => exact ⟨hb, le_rfl⟩
  | some l =>
    rw [placeAfter]
    split_ifs <;> omega

theorem place_congr (h : Agree n i j) : place n i = place n j := by
  unfold Agree at h
  unfold place
  split_ifs <;> omega

theorem placeAfter_congr (hb : 0 ≤ b ∧ b ≤ n) (h : Agree n i j) :
    placeAfter n b (some i) = placeAfter n b (some j) := by
  unfold Agree at h
  rw [placeAfter, placeAfter]
  split_ifs <;> omega

/-- A sum that does not fit a word lies outside the text. -/
theorem beginningOf_eq (hn : n ≤ Word.maxInt64) (i : ℤ) : beginningOf n i = place n i := by
  unfold Word.maxInt64 at hn
  rw [beginningOf, place, clampInt64, clamp, Word.minInt64, Word.maxInt64]
  split_ifs <;> omega

theorem endingOf_eq (hn : n ≤ Word.maxInt64) (hb : 0 ≤ b ∧ b ≤ n) (length? : Option ℤ) :
    endingOf n b length? = placeAfter n b length? := by
  cases length? with
  | none => rfl
  | some l =>
    unfold Word.maxInt64 at hn
    rw [endingOf, placeAfter, clampInt64, clamp, Word.minInt64, Word.maxInt64]
    split_ifs <;> omega

/-! ## What is cut out -/

/-- The text has the characters of `s` from the place `b` to the place `e`. -/
def IsPart (s : List Char) (b e : ℤ) (t : List Char) : Prop :=
  ∃ before after, s = before ++ t ++ after ∧ before.length = b ∧ (before ++ t).length = e

/-- The places are in order, so the characters between them are cut out. -/
theorem substringOf_eq {s : List Char} (hs : s.length ≤ Word.maxInt64) (i : ℤ)
    (length? : Option ℤ) :
    substringOf s i length? = (s.drop (place s.length i).toNat).take
      (placeAfter s.length (place s.length i) length? - place s.length i).toNat := by
  have hfirst := place_bounds s.length i
  have hlast := placeAfter_bounds hfirst.2 length?
  show (s.drop (beginningOf s.length i).toNat).take
    (max (endingOf s.length (beginningOf s.length i) length?) (beginningOf s.length i) -
      beginningOf s.length i).toNat = _
  rw [beginningOf_eq hs, endingOf_eq hs hfirst, max_eq_left hlast.1]

/-- **What is cut out is the part between the two places.** -/
theorem isPart_substringOf {s : List Char} (hs : s.length ≤ Word.maxInt64) (i : ℤ)
    (length? : Option ℤ) :
    IsPart s (place s.length i) (placeAfter s.length (place s.length i) length?)
      (substringOf s i length?) := by
  have hfirst := place_bounds s.length i
  have hlast := placeAfter_bounds hfirst.2 length?
  rw [substringOf_eq hs]
  generalize place s.length i = b at hfirst hlast ⊢
  generalize placeAfter s.length b length? = e at hlast ⊢
  refine ⟨s.take b.toNat, s.drop e.toNat, ?_, ?_, ?_⟩
  · -- what is behind `e` is behind the part that starts at `b`
    have hdrop : s.drop e.toNat = (s.drop b.toNat).drop (e - b).toNat := by
      rw [List.drop_drop]
      congr 1
      omega
    rw [hdrop, List.append_assoc, List.take_append_drop, List.take_append_drop]
  · rw [List.length_take]
    omega
  · rw [List.length_append, List.length_take, List.length_take, List.length_drop]
    omega

/-- A text is what comes before a place followed by what comes behind it. -/
theorem substringOf_append {s : List Char} (hs : s.length ≤ Word.maxInt64) (hi : 0 ≤ i) :
    substringOf s 0 (some i) ++ substringOf s i none = s := by
  have hbounds := place_bounds s.length i
  have hzero : place s.length 0 = 0 := by
    unfold place
    split_ifs <;> omega
  have hplace : placeAfter s.length 0 (some i) = place s.length i := by
    rw [placeAfter, place]
    split_ifs <;> omega
  rw [substringOf_eq hs, substringOf_eq hs, hzero, hplace, placeAfter]
  generalize place s.length i = b at hbounds ⊢
  have hrest : (s.drop b.toNat).take (s.length - b).toNat = s.drop b.toNat := by
    apply List.take_of_length_le
    rw [List.length_drop]
    omega
  rw [hrest, Int.sub_zero, Int.toNat_zero, List.drop_zero, List.take_append_drop]

/-! ## The built-in -/

theorem apply_substring (now s : String) (start : Number) (length? : Option Number) :
    apply .substring now (some (.string s) :: some (.number start) ::
        length?.toList.map fun l => some (.number l)) =
      .ok (some (ofChars (substringOf s.toList (wholeOf start.toBinary64)
        (length?.map fun l => wholeOf l.toBinary64)))) := by
  cases length? <;> rfl

/-- **`$substring` cuts within the text, at the places that its arguments say.**  A word counts the
characters of every text in memory, and for these the two places at which a text is cut lie in it
and in order, whatever the integers are.  For numbers they are the places of their whole parts; for
a number that is no double this is so in texts of fewer than 2⁵³ characters.  What comes before a
place and what comes behind it make up the text. -/
theorem substrings_lie_within_the_text (now s : String) (hs : s.length ≤ Word.maxInt64) :
    (∀ (i : ℤ) (length? : Option ℤ), 0 ≤ beginningOf s.length i ∧
      beginningOf s.length i ≤ endingOf s.length (beginningOf s.length i) length? ∧
      endingOf s.length (beginningOf s.length i) length? ≤ s.length) ∧
    (∀ (start : Number) (length? : Option Number), start.IsExactWithin s.length →
      (∀ l ∈ length?, l.IsExactWithin s.length) →
      ∃ t : String,
        apply .substring now (some (.string s) :: some (.number start) ::
          length?.toList.map fun l => some (.number l)) = .ok (some (.string t)) ∧
        IsPart s.toList (place s.length ⌊start.value⌋)
          (placeAfter s.length (place s.length ⌊start.value⌋)
            (length?.map fun l => ⌊l.value⌋)) t.toList) ∧
    ∀ k : Number, 0 ≤ k.value →
      (do
        let a ← apply .substring now [some (.string s), some (.number .zero), some (.number k)]
        let b ← apply .substring now [some (.string s), some (.number k)]
        Operator.concat.apply a b) = .ok (some (.string s)) := by
  have hlist : s.toList.length ≤ Word.maxInt64 := by rwa [String.length_toList]
  refine ⟨?_, ?_, ?_⟩
  · intro i length?
    have hfirst := place_bounds s.length i
    have hlast := placeAfter_bounds hfirst.2 length?
    rw [beginningOf_eq hs, endingOf_eq hs hfirst]
    exact ⟨hfirst.1, hlast.1, hlast.2⟩
  · intro start length? hstart hlength
    refine ⟨_, apply_substring now s start length?, ?_⟩
    rw [String.toList_ofList]
    have hpart := isPart_substringOf hlist (wholeOf start.toBinary64)
      (length?.map fun l => wholeOf l.toBinary64)
    -- the words that are taken for the numbers agree with their whole parts
    rw [String.length_toList, place_congr (agree_wholeOf hs hstart)] at hpart
    cases length? with
    | none => exact hpart
    | some l =>
      have hcongr := placeAfter_congr (place_bounds s.length ⌊start.value⌋)
        (agree_wholeOf hs (hlength l rfl))
      rw [Option.map_some, hcongr] at hpart
      exact hpart
  · intro k hk
    have hwhole : 0 ≤ wholeOf k.toBinary64 := wholeOf_nonneg hk
    have hbefore : apply .substring now
        [some (.string s), some (.number .zero), some (.number k)] =
        .ok (some (ofChars (substringOf s.toList (wholeOf Number.zero.toBinary64)
          (some (wholeOf k.toBinary64))))) := apply_substring now s .zero (some k)
    have hbehind : apply .substring now [some (.string s), some (.number k)] =
        .ok (some (ofChars (substringOf s.toList (wholeOf k.toBinary64) none))) :=
      apply_substring now s k none
    rw [hbefore, hbehind, wholeOf_zero]
    show Except.ok (some (Json.string (String.ofList _ ++ String.ofList _))) = _
    rw [← String.ofList_append, substringOf_append hlist hwhole, String.ofList_toList]

/-- The last three of five characters, where the length asked for is no double and no signed
word. -/
theorem last_three_characters :
    ∃ start length : Number, start.value = (-3 : ℤ) ∧ length.value = (18446744073709551615 : ℤ) ∧
      "naïve".length ≤ Word.maxInt64 ∧ start.IsExactWithin "naïve".length ∧
      (∀ l ∈ some length, l.IsExactWithin "naïve".length) ∧
      (∃ t : String,
        apply .substring "" [some (.string "naïve"), some (.number start),
          some (.number length)] = .ok (some (.string t)) ∧
        IsPart "naïve".toList 2 5 t.toList) ∧
      0 ≤ Number.value (.whole 2 (by decide)) ∧
      (do
        let a ← apply .substring "" [some (.string "naïve"), some (.number .zero),
          some (.number (.whole 2 (by decide)))]
        let b ← apply .substring "" [some (.string "naïve"), some (.number (.whole 2 (by decide)))]
        Operator.concat.apply a b) = .ok (some (.string "naïve")) := by
  have hlength : "naïve".length ≤ Word.maxInt64 := by decide
  obtain ⟨-, hparts, happend⟩ := substrings_lie_within_the_text "" "naïve" hlength
  have hshort : ∀ x : Number, x.IsExactWithin "naïve".length := fun _ => .inr (by decide)
  have hpos : 0 ≤ Number.value (.whole 2 (by decide)) := by
    show (0 : ℚ) ≤ ((2 : ℤ) : ℚ)
    norm_num
  refine ⟨.whole (-3) (by decide), .whole 18446744073709551615 (by decide), rfl, rfl, hlength,
    hshort _, fun _ _ => hshort _, ?_, hpos, happend _ hpos⟩
  obtain ⟨t, ht, hpart⟩ := hparts (.whole (-3) (by decide))
    (some (.whole 18446744073709551615 (by decide))) (hshort _) fun _ _ => hshort _
  refine ⟨t, ht, ?_⟩
  have hfloor : ⌊Number.value (.whole (-3) (by decide))⌋ = -3 := Int.floor_intCast (-3)
  have hfloor' : ⌊Number.value (.whole 18446744073709551615 (by decide))⌋ =
      18446744073709551615 := Int.floor_intCast 18446744073709551615
  rw [Option.map_some, hfloor, hfloor'] at hpart
  exact hpart

end Reshape.Expression.Library
