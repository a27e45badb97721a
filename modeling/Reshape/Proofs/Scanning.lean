/-
# Scanning words and strings

A reader that stands before a written word or string takes it and leaves what comes behind
it, whatever that is (`Yields`).  Where the cursor counts from makes no difference to what it
takes, so the offsets are left open.

A string is read one character at a time: every character has a text of its own, and the
reader takes it for that character (`stringFrom_escaped`), also where it is an escape.
-/
import Reshape.Json.Reader
import Reshape.Json.Writer
import Reshape.Proofs.Digits

namespace Reshape.Json.Reader

open Text (Ends hexNumber?)

/-! ## What a reader does -/

variable {α β : Type} {r : Except Fault (α × Cursor)} {f : α × Cursor → Except Fault (β × Cursor)}
  {x : α} {y : β} {rest rest' : List Char} {cause : Cause}

/-- The reader has taken `x` and left `rest`. -/
def Yields (r : Except Fault (α × Cursor)) (x : α) (rest : List Char) : Prop :=
  ∃ o, r = .ok (x, ⟨rest, o⟩)

/-- The reader has refused the text for the given cause. -/
def Breaks (r : Except Fault (α × Cursor)) (cause : Cause) : Prop :=
  ∃ o, r = .error ⟨cause, o⟩

theorem Yields.bind (h : Yields r x rest) (hf : ∀ o, Yields (f (x, ⟨rest, o⟩)) y rest') :
    Yields (r >>= f) y rest' := by
  obtain ⟨o, rfl⟩ := h
  exact hf o

theorem Yields.bind_breaks (h : Yields r x rest) (hf : ∀ o, Breaks (f (x, ⟨rest, o⟩)) cause) :
    Breaks (r >>= f) cause := by
  obtain ⟨o, rfl⟩ := h
  exact hf o

theorem Breaks.bind (h : Breaks r cause) : Breaks (r >>= f) cause := by
  obtain ⟨o, rfl⟩ := h
  exact ⟨o, rfl⟩

/-! ## Spaces and words -/

theorem skipSpaces_eq {s : List Char} (h : Ends Cursor.isSpace s) (o : Nat) :
    Cursor.skipSpaces ⟨s, o⟩ = ⟨s, o⟩ := by
  have hnone : s.takeWhile Cursor.isSpace = [] := by
    simpa using Text.takeWhile_append (List.forall_mem_nil _) h
  simp [Cursor.skipSpaces, hnone]

theorem word_yields (v : Json) (w rest : List Char) (o : Nat) :
    Yields (word v w ⟨w ++ rest, o⟩) v rest := by
  induction w generalizing o with
  | nil => exact ⟨o, rfl⟩
  | cons c w ih => simpa [word, Cursor.next] using ih (o + c.utf8Size)

/-! ## Strings -/

/-- The escape by number of a control character is read back. -/
theorem hexNumber?_control {n : Nat} (h : n < 32) :
    hexNumber? ['0', '0', hexDigit (n / 16), hexDigit n] = some n := by
  revert n
  decide

theorem numberEscape_yields {n : Nat} (h : n < 32) (rest : List Char) (o : Nat) :
    Yields (numberEscape ⟨'0' :: '0' :: hexDigit (n / 16) :: hexDigit n :: rest, o⟩)
      (Char.ofNat n) rest := by
  have hlow : isLowSurrogate n = false := by
    simp only [isLowSurrogate, Bool.and_eq_false_iff, decide_eq_false_iff_not]
    omega
  have hhigh : isHighSurrogate n = false := by
    simp only [isHighSurrogate, Bool.and_eq_false_iff, decide_eq_false_iff_not]
    omega
  refine ⟨o + 4, ?_⟩
  simp only [numberEscape, fourDigits, hexNumber?_control h]
  simp [hlow, hhigh, bind, Except.bind, pure, Except.pure]

/-- The text of one character is taken as that character. -/
theorem stringFrom_escaped (c : Char) (steps : Nat) (acc : List Char) (s : List Char) (o : Nat) :
    ∃ o', stringFrom (steps + 1) acc ⟨escaped c ++ s, o⟩ =
      stringFrom steps (c :: acc) ⟨s, o'⟩ := by
  by_cases hshort : c ∈ ['"', '\\', '\x08', '\x0c', '\n', '\r', '\t']
  · -- an escape by letter
    simp only [List.mem_cons, List.not_mem_nil, or_false] at hshort
    obtain rfl | rfl | rfl | rfl | rfl | rfl | rfl := hshort <;> exact ⟨_, rfl⟩
  · simp only [List.mem_cons, List.not_mem_nil, or_false, not_or] at hshort
    obtain ⟨hquote, hback, hb, hf, hn, hr, ht⟩ := hshort
    by_cases hcontrol : c.toNat < 0x20
    · -- an escape by number
      obtain ⟨o', ho'⟩ := numberEscape_yields hcontrol s (o + 1 + 1)
      refine ⟨o', ?_⟩
      have hescaped : escaped c =
          ['\\', 'u', '0', '0', hexDigit (c.toNat / 16), hexDigit c.toNat] := by
        simp [escaped, hquote, hback, hb, hf, hn, hr, ht, hcontrol]
      have hescape : escape ⟨'u' :: '0' :: '0' :: hexDigit (c.toNat / 16) ::
          hexDigit c.toNat :: s, o + 1⟩ = .ok (c, ⟨s, o'⟩) := by
        rw [Char.ofNat_toNat] at ho'
        exact ho'
      rw [hescaped, stringFrom]
      show (escape ⟨'u' :: '0' :: '0' :: hexDigit (c.toNat / 16) ::
          hexDigit c.toNat :: s, o + 1⟩ >>= _) = _
      rw [hescape]
      rfl
    · -- the character itself
      refine ⟨o + c.utf8Size, ?_⟩
      have hescaped : escaped c = [c] := by
        simp [escaped, hquote, hback, hb, hf, hn, hr, ht, hcontrol]
      simp [hescaped, stringFrom, hquote, hback, hcontrol, Cursor.next]

theorem stringFrom_yields (cs acc rest : List Char) {steps : Nat} (h : cs.length < steps)
    (o : Nat) :
    Yields (stringFrom steps acc ⟨cs.flatMap escaped ++ '"' :: rest, o⟩)
      (String.ofList (acc.reverse ++ cs)) rest := by
  induction cs generalizing steps acc o with
  | nil =>
    obtain ⟨steps, rfl⟩ : ∃ k, steps = k + 1 := ⟨steps - 1, by simp at h; omega⟩
    rw [List.append_nil]
    exact ⟨o + 1, rfl⟩
  | cons c cs ih =>
    obtain ⟨steps, rfl⟩ : ∃ k, steps = k + 1 := ⟨steps - 1, by simp at h; omega⟩
    rw [List.flatMap_cons, List.append_assoc]
    obtain ⟨o', ho'⟩ := stringFrom_escaped c steps acc (cs.flatMap escaped ++ '"' :: rest) o
    rw [ho', show acc.reverse ++ c :: cs = (c :: acc).reverse ++ cs by simp]
    exact ih (c :: acc) (by simpa using h) o'

theorem escaped_ne_nil (c : Char) : escaped c ≠ [] := by
  unfold escaped
  split_ifs <;> simp

/-- The text of a string is at least as long as the string. -/
theorem length_le_flatMap_escaped (cs : List Char) : cs.length ≤ (cs.flatMap escaped).length := by
  induction cs with
  | nil => exact le_rfl
  | cons c cs ih =>
    have hc : 0 < (escaped c).length := List.length_pos_of_ne_nil (escaped_ne_nil c)
    rw [List.flatMap_cons, List.length_append, List.length_cons]
    omega

/-- **A written string is read as that string.** -/
theorem stringBody_yields (s : String) (rest : List Char) (o : Nat) :
    Yields (stringBody ⟨s.toList.flatMap escaped ++ '"' :: rest, o⟩) s rest := by
  have hlength := length_le_flatMap_escaped s.toList
  have hsteps : s.toList.length < (s.toList.flatMap escaped ++ '"' :: rest).length + 1 := by
    rw [List.length_append]
    omega
  have hyields := stringFrom_yields s.toList [] rest hsteps o
  rwa [List.reverse_nil, List.nil_append, String.ofList_toList] at hyields

end Reshape.Json.Reader
