/-
# Records written are records taken apart

A record is read in two passes: the first only finds where the value of each member ends, the
second reads the values of the known fields.  For a record whose values are scalars, the first
pass finds the names and exactly the texts that were written for the values
(`read?_write`), so the second one reads the values back.
-/
import Reshape.Json.Fields
import Reshape.Proofs.RoundTrips

namespace Reshape.Json

open Text (Ends isDigit hexValue?)
open Reader

/-! ## The end of a scalar -/

namespace Shape

variable {rest : List Char}

theorem skipSpaces_eq {s : List Char} (h : Ends Cursor.isSpace s) : skipSpaces s = s := by
  simpa [skipSpaces] using Text.dropWhile_append (List.forall_mem_nil _) h

theorem hexValue?_control {n : Nat} (h : n < 32) :
    (['0', '0', hexDigit (n / 16), hexDigit n].all fun x => (hexValue? x).isSome) = true := by
  revert n
  decide

/-- The text of one character is passed in one step. -/
theorem string_escaped (c : Char) (steps : Nat) (s : List Char) :
    string (steps + 1) (escaped c ++ s) = string steps s := by
  by_cases hshort : c ∈ ['"', '\\', '\x08', '\x0c', '\n', '\r', '\t']
  · simp only [List.mem_cons, List.not_mem_nil, or_false] at hshort
    obtain rfl | rfl | rfl | rfl | rfl | rfl | rfl := hshort <;> rfl
  · simp only [List.mem_cons, List.not_mem_nil, or_false, not_or] at hshort
    obtain ⟨hquote, hback, hb, hf, hn, hr, ht⟩ := hshort
    by_cases hcontrol : c.toNat < 0x20
    · have hescaped : escaped c =
          ['\\', 'u', '0', '0', hexDigit (c.toNat / 16), hexDigit c.toNat] := by
        simp [escaped, hquote, hback, hb, hf, hn, hr, ht, hcontrol]
      rw [hescaped]
      show (if _ = true then string steps s else none) = string steps s
      rw [if_pos (hexValue?_control hcontrol)]
    · have hescaped : escaped c = [c] := by
        simp [escaped, hquote, hback, hb, hf, hn, hr, ht, hcontrol]
      rw [hescaped, List.singleton_append, string]
      · simp [hquote, hback, hcontrol]
      · exact fun a b c d e h => absurd h hback
      · exact fun a b h => absurd h hback

theorem string_body (cs : List Char) {steps : Nat} (h : cs.length < steps) :
    string steps (cs.flatMap escaped ++ '"' :: rest) = some rest := by
  induction cs generalizing steps with
  | nil =>
    obtain ⟨steps, rfl⟩ : ∃ k, steps = k + 1 := ⟨steps - 1, by simp at h; omega⟩
    rfl
  | cons c cs ih =>
    obtain ⟨steps, rfl⟩ : ∃ k, steps = k + 1 := ⟨steps - 1, by simp at h; omega⟩
    rw [List.flatMap_cons, List.append_assoc, string_escaped]
    exact ih (by simpa using h)

/-- The parts of a numeral are passed, and its sign. -/
theorem number_writeNumber (n : Number) (hrest : NumberEnds rest) :
    number (writeNumber n ++ rest) = some rest := by
  obtain ⟨negative, w, hw, hwrite⟩ := exists_written n
  have hunsigned : (if (writeNumber n ++ rest).head? == some '-' then (writeNumber n ++ rest).tail
      else writeNumber n ++ rest) = w.chars ++ rest := by
    rw [hwrite]
    cases negative with
    | true => rfl
    | false =>
      obtain ⟨c, cs, hcs, hc⟩ := hw.exists_cons
      have hminus : c ≠ '-' := by
        rintro rfl
        exact absurd hc (by decide)
      simp [hcs, hminus]
  obtain ⟨s₁, s₂, o₁, o₂, h₁, h₂, h₃⟩ := parts_yield hw hrest 0
  obtain ⟨o₃, h₃⟩ := h₃ true
  rw [number]
  simp only [hunsigned, Cursor.start, h₁, h₂, h₃]

theorem value_string (s : String) (steps : Nat) :
    value (steps + 1) (write (.string s) ++ rest) = some rest := by
  have htext : write (.string s) ++ rest = '"' :: (s.toList.flatMap escaped ++ '"' :: rest) := by
    simp [write, writeString]
  have hlength := length_le_flatMap_escaped s.toList
  rw [htext, value, skipSpaces_eq (fun x hx => by cases hx; rfl)]
  exact string_body _ (by rw [List.length_append]; omega)

theorem value_number (n : Number) (hrest : NumberEnds rest) (steps : Nat) :
    value (steps + 1) (write (.number n) ++ rest) = some rest := by
  obtain ⟨c, s, hs, hc⟩ := exists_cons_writeNumber n
  have hnumber := number_writeNumber n hrest
  rw [hs] at hnumber
  rw [write, hs, List.cons_append, value]
  obtain rfl | hdigit := hc
  · rw [skipSpaces_eq (fun x hx => by cases hx; rfl)]
    exact hnumber
  · have hstarts := starts_of_isDigit hdigit
    have hne : c ≠ 'n' ∧ c ≠ 't' ∧ c ≠ 'f' ∧ c ≠ '"' := by
      refine ⟨?_, ?_, ?_, ?_⟩ <;> rintro rfl <;> exact absurd hdigit (by decide)
    rw [skipSpaces_eq (fun x hx => by cases hx; exact hstarts.1)]
    simpa [hne, hdigit] using hnumber

/-- A scalar is passed, and nothing behind it. -/
theorem value_scalar {v : Json} (hv : v.IsScalar) (hrest : NumberEnds rest) (steps : Nat) :
    value (steps + 1) (write v ++ rest) = some rest := by
  cases v with
  | null =>
    rw [value, skipSpaces_eq (fun x hx => by cases hx; rfl)]
    rfl
  | bool b =>
    cases b <;>
    · rw [value, skipSpaces_eq (fun x hx => by cases hx; rfl)]
      rfl
  | number n => exact value_number n hrest steps
  | string s => exact value_string s steps
  | array items => exact absurd hv id
  | object members => exact absurd hv id

/-- What is taken for a scalar is the text of the scalar. -/
theorem taken_scalar {v : Json} (hv : v.IsScalar) (hrest : NumberEnds rest) :
    taken (write v ++ rest) = some (write v, rest) := by
  rw [taken, value_scalar hv hrest]
  simp

end Shape

/-! ## Members taken apart -/

namespace Outline

/-- The members with the texts of their values. -/
def texts (ms : Members) : List (String × List Char) := ms.map fun m => (m.1, write m.2)

/-- The texts from a member on are those of the member and of the members behind it. -/
theorem members_cons {k : String} {v : Json} (hv : v.IsScalar) {c : Char} (steps : Nat)
    (first : Bool) (s : List Char) (hc : c = ',' ∨ c = '\x7d') :
    members (steps + 1) first (writeString k ++ ':' :: (write v ++ c :: s)) =
      if c = ',' then (members steps false s).map fun x => ((k, write v) :: x.1, x.2)
      else some ([(k, write v)], s) := by
  have htext : writeString k ++ ':' :: (write v ++ c :: s) =
      '"' :: (k.toList.flatMap escaped ++ '"' :: (':' :: (write v ++ c :: s))) := by
    simp [writeString]
  obtain ⟨o, ho⟩ := stringBody_yields k (':' :: (write v ++ c :: s)) 0
  have hcolon : Shape.skipSpaces (':' :: (write v ++ c :: s)) = ':' :: (write v ++ c :: s) :=
    Shape.skipSpaces_eq fun x hx => by cases hx; rfl
  have hvalue : Shape.taken (write v ++ c :: s) = some (write v, c :: s) := by
    refine Shape.taken_scalar hv fun x hx => ?_
    cases hx
    obtain rfl | rfl := hc <;> rfl
  rw [htext, members, Shape.skipSpaces_eq (fun x hx => by cases hx; rfl)]
  simp only [Cursor.start, ho, hcolon, hvalue, bind, Option.bind]
  obtain rfl | rfl := hc
  · rw [Shape.skipSpaces_eq (fun x hx => by cases hx; rfl), if_pos rfl]
    cases hs : members steps false s <;> simp [hs]
  · rw [Shape.skipSpaces_eq (fun x hx => by cases hx; rfl)]
    rfl

/-- The members are found with the texts of their values, one after the other. -/
theorem members_write (k : String) {v : Json} {ms : Members} {steps : Nat} (first : Bool)
    (rest : List Char) (hv : v.IsScalar) (hms : ∀ m ∈ ms, m.2.IsScalar)
    (hsteps : ms.length < steps) :
    members steps first (writeString k ++ ':' :: (write v ++ (writeMembers ms ++ rest))) =
      some (texts ((k, v) :: ms), rest) := by
  induction ms generalizing k v steps first with
  | nil =>
    obtain ⟨steps, rfl⟩ : ∃ k, steps = k + 1 := ⟨steps - 1, by omega⟩
    rw [writeMembers, List.singleton_append, members_cons hv steps first rest (Or.inr rfl)]
    rfl
  | cons m ms ih =>
    obtain ⟨k', v'⟩ := m
    obtain ⟨steps, rfl⟩ : ∃ k, steps = k + 1 := ⟨steps - 1, by omega⟩
    have htext : writeMembers ((k', v') :: ms) ++ rest =
        ',' :: (writeString k' ++ ':' :: (write v' ++ (writeMembers ms ++ rest))) := by
      simp [writeMembers]
    have hrest := ih k' false (hms (k', v') List.mem_cons_self)
      (fun m hm => hms m (List.mem_cons_of_mem _ hm)) (Nat.lt_of_succ_lt_succ hsteps)
    rw [htext, members_cons hv steps first _ (Or.inl rfl), if_pos rfl, hrest]
    rfl

/-- **An object of scalars is taken apart into its names and the texts of its values.** -/
theorem read?_write {k : String} {v : Json} {ms : Members}
    (hscalar : ∀ m ∈ (k, v) :: ms, m.2.IsScalar) :
    read? (write (.object ((k, v) :: ms))) = some (.object (texts ((k, v) :: ms))) := by
  have htext : write (.object ((k, v) :: ms)) =
      '\x7b' :: (writeString k ++ ':' :: (write v ++ (writeMembers ms ++ []))) := by
    simp [write]
  have hlength := length_le_writeMembers ms
  have hsteps : ms.length <
      (writeString k ++ ':' :: (write v ++ (writeMembers ms ++ []))).length + 1 := by
    simp
    omega
  have hmembers := members_write k true [] (hscalar (k, v) List.mem_cons_self)
    (fun m hm => hscalar m (List.mem_cons_of_mem _ hm)) hsteps
  rw [htext, read?, Shape.skipSpaces_eq (fun x hx => by cases hx; rfl)]
  simp only [hmembers]
  rfl

end Outline

/-! ## Fields of scalars -/

theorem fieldValue?_write {v : Json} (hv : v.IsScalar) (hn : v.AllNumbers Number.IsReadBack) :
    fieldValue? (write v) = some v := by
  rw [fieldValue?, read_write hv.wellFormed hn (by rw [hv.depth_eq]; exact Nat.zero_le _)]
  rfl

theorem stringField?_write (s : String) : stringField? (some (write (.string s))) = some s := by
  simp [stringField?, fieldValue?_write (Json.isScalar_string s) (.string s), string?]

theorem optionalField?_write (s : String) :
    optionalField? string? (some (write (.string s))) = some (some s) := by
  simp [optionalField?, fieldValue?_write (Json.isScalar_string s) (.string s), optional?, string?]

theorem intField?_write {lo hi n : Int} (fits : Fits64 n) (hlo : lo ≤ n) (hhi : n ≤ hi) :
    intField? lo hi (some (write (.number (.whole n fits)))) = some n := by
  have hvalue := fieldValue?_write (Json.isScalar_number (.whole n fits))
    (.number (Number.isReadBack_whole n fits))
  simp [intField?, hvalue, intBetween?, hlo, hhi]

end Reshape.Json
