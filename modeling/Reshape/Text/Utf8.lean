/-
# UTF-8

Bytes are read as a row of chunks: a character, a broken sequence of one to three
bytes, or a sequence that the end of the input leaves unfinished.  Strict decoding
fails at the first chunk that is no character and says where it starts; lenient
decoding puts a replacement character in the place of every such chunk.
-/
import Reshape.Text.Blank

namespace Reshape.Text

/-- A row of bytes. -/
abbrev Bytes := List UInt8

namespace Utf8

/-! ## Chunks -/

/-- A maximal piece of a byte row that stands for one character or none. -/
inductive Chunk
  | char (c : Char)
  | broken (length : Nat)
  | unfinished
  deriving DecidableEq, Repr

/-- A byte that goes on with a sequence. -/
def isContinuation (b : UInt8) : Bool := 0x80 ≤ b && b ≤ 0xBF

/-- A byte that may follow the leading byte `a` of a longer sequence: the ranges leave
out overlong forms, surrogates and numbers beyond the last code point. -/
def isSecond (a b : UInt8) : Bool :=
  if a == 0xE0 then 0xA0 ≤ b && b ≤ 0xBF
  else if a == 0xED then 0x80 ≤ b && b ≤ 0x9F
  else if a == 0xF0 then 0x90 ≤ b && b ≤ 0xBF
  else if a == 0xF4 then 0x80 ≤ b && b ≤ 0x8F
  else isContinuation b

/-- The number of bytes that a leading byte announces, or zero if it is none. -/
def announced (a : UInt8) : Nat :=
  if a < 0x80 then 1
  else if 0xC2 ≤ a && a ≤ 0xDF then 2
  else if 0xE0 ≤ a && a ≤ 0xEF then 3
  else if 0xF0 ≤ a && a ≤ 0xF4 then 4
  else 0

/-- The payload of a continuation byte. -/
def payload (b : UInt8) : Nat := b.toNat % 64

/-- The character of a two-byte sequence. -/
def char2 (a b : UInt8) : Char := Char.ofNat (a.toNat % 32 * 64 + payload b)

/-- The character of a three-byte sequence. -/
def char3 (a b c : UInt8) : Char :=
  Char.ofNat ((a.toNat % 16 * 64 + payload b) * 64 + payload c)

/-- The character of a four-byte sequence. -/
def char4 (a b c d : UInt8) : Char :=
  Char.ofNat (((a.toNat % 8 * 64 + payload b) * 64 + payload c) * 64 + payload d)

/-- The chunks of a byte row in order. -/
def chunks : Bytes → List Chunk
  | [] => []
  | a :: t =>
    match announced a with
    | 1 => .char (Char.ofNat a.toNat) :: chunks t
    | 2 =>
      match t with
      | [] => [.unfinished]
      | b :: t₂ =>
        if isContinuation b then .char (char2 a b) :: chunks t₂
        else .broken 1 :: chunks (b :: t₂)
    | 3 =>
      match t with
      | [] => [.unfinished]
      | b :: t₂ =>
        if isSecond a b then
          match t₂ with
          | [] => [.unfinished]
          | c :: t₃ =>
            if isContinuation c then .char (char3 a b c) :: chunks t₃
            else .broken 2 :: chunks (c :: t₃)
        else .broken 1 :: chunks (b :: t₂)
    | 4 =>
      match t with
      | [] => [.unfinished]
      | b :: t₂ =>
        if isSecond a b then
          match t₂ with
          | [] => [.unfinished]
          | c :: t₃ =>
            if isContinuation c then
              match t₃ with
              | [] => [.unfinished]
              | d :: t₄ =>
                if isContinuation d then .char (char4 a b c d) :: chunks t₄
                else .broken 3 :: chunks (d :: t₄)
            else .broken 2 :: chunks (c :: t₃)
        else .broken 1 :: chunks (b :: t₂)
    | _ => .broken 1 :: chunks t

/-! ## Strict decoding -/

/-- Where and why a byte row is not UTF-8: the number of good bytes, and the length of
the broken sequence after them, or none if the row ends within it. -/
structure Fault where
  validUpTo : Nat
  length? : Option Nat
  deriving DecidableEq, Repr

/-- The characters of a row of chunks that starts at byte `offset`. -/
def charsFrom (offset : Nat) : List Chunk → Except Fault (List Char)
  | [] => .ok []
  | .char c :: rest => (charsFrom (offset + c.utf8Size) rest).map (c :: ·)
  | .broken n :: _ => .error ⟨offset, some n⟩
  | .unfinished :: _ => .error ⟨offset, none⟩

/-- The characters that the bytes encode. -/
def decode (bytes : Bytes) : Except Fault (List Char) := charsFrom 0 (chunks bytes)

/-- The text that the bytes encode, if they encode one. -/
def decode? (bytes : Bytes) : Option String :=
  match decode bytes with
  | .ok cs => some (String.ofList cs)
  | .error _ => none

/-- The fault in words. -/
def Fault.message (f : Fault) : String :=
  match f.length? with
  | some n => s!"invalid utf-8 sequence of {n} bytes from index {f.validUpTo}"
  | none => s!"incomplete utf-8 byte sequence from index {f.validUpTo}"

/-- The fault with its parts named. -/
def Fault.detail (f : Fault) : String :=
  let length := match f.length? with
    | some n => s!"Some({n})"
    | none => "None"
  s!"Utf8Error \x7b valid_up_to: {f.validUpTo}, error_len: {length} \x7d"

/-! ## Lenient decoding and encoding -/

/-- The character shown for a chunk. -/
def Chunk.shown : Chunk → Char
  | .char c => c
  | _ => '\uFFFD'

/-- The text with a replacement character for every chunk that is none. -/
def lenient (bytes : Bytes) : String := String.ofList ((chunks bytes).map Chunk.shown)

/-- The bytes of one character. -/
def encodeChar (c : Char) : Bytes :=
  let n := c.toNat
  if n < 0x80 then [n.toUInt8]
  else if n < 0x800 then [(0xC0 + n / 64).toUInt8, (0x80 + n % 64).toUInt8]
  else if n < 0x10000 then
    [(0xE0 + n / 4096).toUInt8, (0x80 + n / 64 % 64).toUInt8, (0x80 + n % 64).toUInt8]
  else
    [(0xF0 + n / 262144).toUInt8, (0x80 + n / 4096 % 64).toUInt8,
     (0x80 + n / 64 % 64).toUInt8, (0x80 + n % 64).toUInt8]

/-- The bytes of a text. -/
def encode (s : String) : Bytes := s.toList.flatMap encodeChar

/-- The number of bytes of a row of characters. -/
def size : List Char → Nat
  | [] => 0
  | c :: rest => c.utf8Size + size rest

/-! ## Laws -/

/-- Lenient decoding agrees with strict decoding where that succeeds. -/
theorem charsFrom_eq_ok {offset : Nat} {cks : List Chunk} {cs : List Char}
    (h : charsFrom offset cks = .ok cs) : cks.map Chunk.shown = cs := by
  induction cks generalizing offset cs with
  | nil =>
    simp only [charsFrom, Except.ok.injEq] at h
    simp [h]
  | cons k rest ih =>
    cases k with
    | char c =>
      simp only [charsFrom] at h
      cases hr : charsFrom (offset + c.utf8Size) rest with
      | error e => simp [hr, Except.map] at h
      | ok ds =>
        simp only [hr, Except.map, Except.ok.injEq] at h
        simp [Chunk.shown, ← h, ih hr]
    | broken n => simp [charsFrom] at h
    | unfinished => simp [charsFrom] at h

/-- A text that decodes is shown unchanged. -/
theorem lenient_of_decode {bytes : Bytes} {cs : List Char} (h : decode bytes = .ok cs) :
    lenient bytes = String.ofList cs := by
  rw [lenient, charsFrom_eq_ok h]

end Utf8

end Reshape.Text
