/-
# Decoding inverts encoding

A row of bytes is UTF-8 exactly when it is the encoding of a text, and then strict
decoding answers that text.  The link between the two is the *sequence*: the bytes that
one character stands for.  A sequence is what `chunks` takes for one character
(`chunks_append_of_sequence`, `exists_sequence_of_chunks`), and it is what `encodeChar`
writes (`sequence_iff`).  From there the statement goes through by induction on the
characters (`decode_eq_ok_iff`).
-/
import Mathlib.Tactic
import Reshape.Text.Utf8

namespace Reshape.Text.Utf8

/-! ## Classes of bytes as intervals -/

/-- A number below 256 is kept by the byte made of it. -/
theorem toNat_toUInt8_of_lt {n : Nat} (h : n < 256) : n.toUInt8.toNat = n := by
  rw [Nat.toUInt8, UInt8.toNat_ofNat']
  exact Nat.mod_eq_of_lt h

/-- The number of bytes announced, read off the number of the leading byte. -/
theorem announced_eq (a : UInt8) :
    announced a =
      if a.toNat < 0x80 then 1
      else if 0xC2 ≤ a.toNat ∧ a.toNat ≤ 0xDF then 2
      else if 0xE0 ≤ a.toNat ∧ a.toNat ≤ 0xEF then 3
      else if 0xF0 ≤ a.toNat ∧ a.toNat ≤ 0xF4 then 4
      else 0 := by
  simp [announced, UInt8.le_iff_toNat_le, UInt8.lt_iff_toNat_lt]

theorem announced_eq_one_iff {a : UInt8} : announced a = 1 ↔ a.toNat < 0x80 := by
  rw [announced_eq]
  split_ifs <;> simp <;> omega

theorem announced_eq_two_iff {a : UInt8} :
    announced a = 2 ↔ 0xC2 ≤ a.toNat ∧ a.toNat ≤ 0xDF := by
  rw [announced_eq]
  split_ifs <;> simp <;> omega

theorem announced_eq_three_iff {a : UInt8} :
    announced a = 3 ↔ 0xE0 ≤ a.toNat ∧ a.toNat ≤ 0xEF := by
  rw [announced_eq]
  split_ifs <;> simp <;> omega

theorem announced_eq_four_iff {a : UInt8} :
    announced a = 4 ↔ 0xF0 ≤ a.toNat ∧ a.toNat ≤ 0xF4 := by
  rw [announced_eq]
  split_ifs <;> simp <;> omega

theorem isContinuation_iff {b : UInt8} :
    isContinuation b = true ↔ 0x80 ≤ b.toNat ∧ b.toNat ≤ 0xBF := by
  simp [isContinuation, UInt8.le_iff_toNat_le]

/-- What a second byte may be after each leading byte. -/
theorem isSecond_iff {a b : UInt8} :
    isSecond a b = true ↔
      0x80 ≤ b.toNat ∧ b.toNat ≤ 0xBF ∧ (a.toNat = 0xE0 → 0xA0 ≤ b.toNat) ∧
        (a.toNat = 0xED → b.toNat ≤ 0x9F) ∧ (a.toNat = 0xF0 → 0x90 ≤ b.toNat) ∧
        (a.toNat = 0xF4 → b.toNat ≤ 0x8F) := by
  have key : ∀ n : UInt8, (a == n) = decide (a.toNat = n.toNat) := by
    intro n
    by_cases h : a = n
    · simp [h]
    · simp [h, mt UInt8.toNat_inj.mp h]
  simp only [isSecond, key, isContinuation, UInt8.le_iff_toNat_le]
  by_cases h1 : a.toNat = 0xE0 <;> by_cases h2 : a.toNat = 0xED <;>
    by_cases h3 : a.toNat = 0xF0 <;> by_cases h4 : a.toNat = 0xF4 <;>
      simp [h1, h2, h3, h4] <;> omega

/-! ## Sequences -/

/-- The bytes that stand for one character, by the length that the first announces. -/
inductive Sequence : Bytes → Char → Prop
  | one {a : UInt8} (ha : announced a = 1) : Sequence [a] (Char.ofNat a.toNat)
  | two {a b : UInt8} (ha : announced a = 2) (hb : isContinuation b = true) :
      Sequence [a, b] (char2 a b)
  | three {a b c : UInt8} (ha : announced a = 3) (hb : isSecond a b = true)
      (hc : isContinuation c = true) : Sequence [a, b, c] (char3 a b c)
  | four {a b c d : UInt8} (ha : announced a = 4) (hb : isSecond a b = true)
      (hc : isContinuation c = true) (hd : isContinuation d = true) :
      Sequence [a, b, c, d] (char4 a b c d)

/-- A sequence in front is taken as one character. -/
theorem chunks_append_of_sequence {bs : Bytes} {c : Char} (h : Sequence bs c) (rest : Bytes) :
    chunks (bs ++ rest) = .char c :: chunks rest := by
  cases h with
  | one ha =>
    rw [chunks.eq_def]
    simp [ha]
  | two ha hb =>
    rw [chunks.eq_def]
    simp [ha, hb]
  | three ha hb hc =>
    rw [chunks.eq_def]
    simp [ha, hb, hc]
  | four ha hb hc hd =>
    rw [chunks.eq_def]
    simp [ha, hb, hc, hd]

/-- Where a character is taken first, its sequence stands in front. -/
theorem exists_sequence_of_chunks {bytes : Bytes} {c : Char} {cks : List Chunk}
    (h : chunks bytes = .char c :: cks) :
    ∃ bs rest, bytes = bs ++ rest ∧ Sequence bs c ∧ chunks rest = cks := by
  unfold chunks at h
  split at h
  · cases h
  · rename_i a t
    split at h
    · rename_i ha
      obtain ⟨hc, rfl⟩ := List.cons.inj h
      cases hc
      exact ⟨[a], t, rfl, .one ha, rfl⟩
    · rename_i ha
      split at h
      · cases h
      · split at h
        · rename_i b t₂ hb
          obtain ⟨hc, rfl⟩ := List.cons.inj h
          cases hc
          exact ⟨[a, b], t₂, rfl, .two ha hb, rfl⟩
        · cases h
    · rename_i ha
      split at h
      · cases h
      · split at h
        · rename_i b t₂ hb
          split at h
          · cases h
          · split at h
            · rename_i c' t₃ hc'
              obtain ⟨hc, rfl⟩ := List.cons.inj h
              cases hc
              exact ⟨[a, b, c'], t₃, rfl, .three ha hb hc', rfl⟩
            · cases h
        · cases h
    · rename_i ha
      split at h
      · cases h
      · split at h
        · rename_i b t₂ hb
          split at h
          · cases h
          · split at h
            · rename_i c' t₃ hc'
              split at h
              · cases h
              · split at h
                · rename_i d t₄ hd
                  obtain ⟨hc, rfl⟩ := List.cons.inj h
                  cases hc
                  exact ⟨[a, b, c', d], t₄, rfl, .four ha hb hc' hd, rfl⟩
                · cases h
            · cases h
        · cases h
    · cases h

/-! ## Sequences and encodings -/

/-- A code point is below the surrogates or between them and the end. -/
theorem toNat_range (c : Char) :
    c.toNat < 0xD800 ∨ 0xDFFF < c.toNat ∧ c.toNat < 0x110000 := c.valid

theorem toNat_ofNat_of_range {n : Nat} (h : n < 0xD800 ∨ 0xDFFF < n ∧ n < 0x110000) :
    (Char.ofNat n).toNat = n := by
  have hv : n.isValidChar := h
  rw [Char.ofNat, dif_pos hv]
  rfl

/-- The encoding of a character is a sequence for it. -/
theorem sequence_encodeChar (c : Char) : Sequence (encodeChar c) c := by
  have hr := toNat_range c
  have hback := Char.ofNat_toNat c
  unfold encodeChar
  simp only
  generalize c.toNat = n at hr hback ⊢
  subst hback
  split_ifs with h1 h2 h3
  · have ha := toNat_toUInt8_of_lt (n := n) (by omega)
    have hs := Sequence.one (announced_eq_one_iff.mpr (by omega : n.toUInt8.toNat < 0x80))
    rwa [ha] at hs
  · have ha := toNat_toUInt8_of_lt (n := 0xC0 + n / 64) (by omega)
    have hb := toNat_toUInt8_of_lt (n := 0x80 + n % 64) (by omega)
    have hs := Sequence.two (announced_eq_two_iff.mpr (by rw [ha]; omega))
      (isContinuation_iff.mpr (by rw [hb]; omega))
    rw [char2, payload, ha, hb] at hs
    rwa [show (0xC0 + n / 64) % 32 * 64 + (0x80 + n % 64) % 64 = n from by omega] at hs
  · have ha := toNat_toUInt8_of_lt (n := 0xE0 + n / 4096) (by omega)
    have hb := toNat_toUInt8_of_lt (n := 0x80 + n / 64 % 64) (by omega)
    have hc := toNat_toUInt8_of_lt (n := 0x80 + n % 64) (by omega)
    have hs := Sequence.three (b := (0x80 + n / 64 % 64).toUInt8)
      (announced_eq_three_iff.mpr (by rw [ha]; omega))
      (isSecond_iff.mpr (by rw [ha, hb]; omega)) (isContinuation_iff.mpr (by rw [hc]; omega))
    rw [char3, payload, payload, ha, hb, hc] at hs
    rwa [show ((0xE0 + n / 4096) % 16 * 64 + (0x80 + n / 64 % 64) % 64) * 64
      + (0x80 + n % 64) % 64 = n from by omega] at hs
  · have ha := toNat_toUInt8_of_lt (n := 0xF0 + n / 262144) (by omega)
    have hb := toNat_toUInt8_of_lt (n := 0x80 + n / 4096 % 64) (by omega)
    have hc := toNat_toUInt8_of_lt (n := 0x80 + n / 64 % 64) (by omega)
    have hd := toNat_toUInt8_of_lt (n := 0x80 + n % 64) (by omega)
    have hs := Sequence.four (b := (0x80 + n / 4096 % 64).toUInt8)
      (announced_eq_four_iff.mpr (by rw [ha]; omega))
      (isSecond_iff.mpr (by rw [ha, hb]; omega)) (isContinuation_iff.mpr (by rw [hc]; omega))
      (isContinuation_iff.mpr (by rw [hd]; omega))
    rw [char4, payload, payload, payload, ha, hb, hc, hd] at hs
    rwa [show (((0xF0 + n / 262144) % 8 * 64 + (0x80 + n / 4096 % 64) % 64) * 64
      + (0x80 + n / 64 % 64) % 64) * 64 + (0x80 + n % 64) % 64 = n from by omega] at hs

/-- The encoding of a character whose code point is `n`. -/
theorem encodeChar_ofNat {n : Nat} (h : n < 0xD800 ∨ 0xDFFF < n ∧ n < 0x110000) :
    encodeChar (Char.ofNat n) =
      if n < 0x80 then [n.toUInt8]
      else if n < 0x800 then [(0xC0 + n / 64).toUInt8, (0x80 + n % 64).toUInt8]
      else if n < 0x10000 then
        [(0xE0 + n / 4096).toUInt8, (0x80 + n / 64 % 64).toUInt8, (0x80 + n % 64).toUInt8]
      else
        [(0xF0 + n / 262144).toUInt8, (0x80 + n / 4096 % 64).toUInt8,
         (0x80 + n / 64 % 64).toUInt8, (0x80 + n % 64).toUInt8] := by
  rw [encodeChar, toNat_ofNat_of_range h]

/-- A byte is known by its number. -/
theorem toUInt8_eq {n : Nat} {a : UInt8} (h : n = a.toNat) : n.toUInt8 = a := by
  rw [h, Nat.toUInt8, UInt8.ofNat_toNat]

/-- A sequence for a character is its encoding. -/
theorem eq_encodeChar_of_sequence {bs : Bytes} {c : Char} (h : Sequence bs c) :
    bs = encodeChar c := by
  cases h with
  | @one a ha =>
    rw [announced_eq_one_iff] at ha
    rw [encodeChar_ofNat (by omega), if_pos ha, toUInt8_eq rfl]
  | @two a b ha hb =>
    rw [announced_eq_two_iff] at ha
    rw [isContinuation_iff] at hb
    rw [char2, payload, encodeChar_ofNat (by omega), if_neg (by omega), if_pos (by omega),
      toUInt8_eq (a := a) (by omega), toUInt8_eq (a := b) (by omega)]
  | @three a b c ha hb hc =>
    rw [announced_eq_three_iff] at ha
    rw [isSecond_iff] at hb
    rw [isContinuation_iff] at hc
    rw [char3, payload, payload, encodeChar_ofNat (by omega), if_neg (by omega),
      if_neg (by omega), if_pos (by omega), toUInt8_eq (a := a) (by omega),
      toUInt8_eq (a := b) (by omega), toUInt8_eq (a := c) (by omega)]
  | @four a b c d ha hb hc hd =>
    rw [announced_eq_four_iff] at ha
    rw [isSecond_iff] at hb
    rw [isContinuation_iff] at hc hd
    rw [char4, payload, payload, payload, encodeChar_ofNat (by omega), if_neg (by omega),
      if_neg (by omega), if_neg (by omega), toUInt8_eq (a := a) (by omega),
      toUInt8_eq (a := b) (by omega), toUInt8_eq (a := c) (by omega),
      toUInt8_eq (a := d) (by omega)]

/-- The sequence for a character is its encoding, and no other. -/
theorem sequence_iff {bs : Bytes} {c : Char} : Sequence bs c ↔ bs = encodeChar c := by
  constructor
  · exact eq_encodeChar_of_sequence
  · rintro rfl
    exact sequence_encodeChar c

/-! ## Rows of characters -/

/-- No byte is left over where there is no chunk. -/
theorem chunks_eq_nil_iff {bytes : Bytes} : chunks bytes = [] ↔ bytes = [] := by
  constructor
  · intro h
    rw [chunks.eq_def] at h
    split at h
    · rfl
    · repeat' split at h
      all_goals cases h
  · rintro rfl
    rw [chunks.eq_def]

/-- The chunks are characters exactly where the bytes are their encodings in a row. -/
theorem chunks_eq_map_char_iff {bytes : Bytes} {cs : List Char} :
    chunks bytes = cs.map .char ↔ bytes = cs.flatMap encodeChar := by
  induction cs generalizing bytes with
  | nil => exact chunks_eq_nil_iff
  | cons c cs ih =>
    rw [List.map_cons, List.flatMap_cons]
    constructor
    · intro h
      obtain ⟨bs, rest, rfl, hs, hrest⟩ := exists_sequence_of_chunks h
      rw [eq_encodeChar_of_sequence hs, ih.mp hrest]
    · rintro rfl
      rw [chunks_append_of_sequence (sequence_encodeChar c), ih.mpr rfl]

/-- Strict decoding answers where every chunk is a character. -/
theorem charsFrom_eq_ok_iff {offset : Nat} {cks : List Chunk} {cs : List Char} :
    charsFrom offset cks = .ok cs ↔ cks = cs.map .char := by
  constructor
  · intro h
    induction cks generalizing offset cs with
    | nil =>
      cases h
      rfl
    | cons k rest ih =>
      cases k with
      | char c =>
        rw [charsFrom] at h
        cases hr : charsFrom (offset + c.utf8Size) rest with
        | error e =>
          rw [hr] at h
          cases h
        | ok ds =>
          rw [hr] at h
          cases h
          rw [List.map_cons, ih hr]
      | broken n => cases h
      | unfinished => cases h
  · rintro rfl
    induction cs generalizing offset with
    | nil => rfl
    | cons c cs ih =>
      rw [List.map_cons, charsFrom, ih]
      rfl

/-- **Strict decoding inverts encoding**: bytes decode to a row of characters exactly
where they are its encoding. -/
theorem decode_eq_ok_iff {bytes : Bytes} {cs : List Char} :
    decode bytes = .ok cs ↔ bytes = cs.flatMap encodeChar := by
  rw [decode, charsFrom_eq_ok_iff, chunks_eq_map_char_iff]

/-- The encoding of a text decodes to it. -/
theorem decode_encode (s : String) : decode (encode s) = .ok s.toList :=
  decode_eq_ok_iff.mpr rfl

/-- What decodes is the encoding of a text. -/
theorem eq_encode_of_decode {bytes : Bytes} {cs : List Char} (h : decode bytes = .ok cs) :
    bytes = encode (String.ofList cs) := by
  rw [encode, String.toList_ofList]
  exact decode_eq_ok_iff.mp h

/-- Bytes that do not decode encode no text. -/
theorem ne_encode_of_decode_eq_error {bytes : Bytes} {fault : Fault}
    (h : decode bytes = .error fault) (s : String) : bytes ≠ encode s := by
  rintro rfl
  rw [decode_encode] at h
  cases h

/-- Only the empty text has an empty encoding. -/
theorem encode_eq_nil_iff {s : String} : encode s = [] ↔ s = "" := by
  constructor
  · intro h
    have hd := decode_encode s
    rw [h] at hd
    have hnil : s.toList = [] := (Except.ok.inj hd).symm
    exact String.toList_eq_nil_iff.mp hnil
  · rintro rfl
    rfl

end Reshape.Text.Utf8
