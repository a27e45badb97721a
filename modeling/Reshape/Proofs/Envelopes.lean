/-
# Envelopes read back

An envelope is written as an object of strings and whole numbers, so it is taken apart into
the texts of its values, and each field reads its value back: strings with all their
characters, and numbers because a word of 32 or of 64 bits lies within the bounds that the
field checks (`ofText?_text`).

A dead letter is the UTF-8 of such a text.  What was delivered is therefore still there in
what was published, byte for byte where the value was UTF-8 (`dead_letter_keeps_message`).
-/
import Reshape.Proofs.Publishing
import Reshape.Proofs.Records

namespace Reshape.DeadLetter

open Text (Utf8.decode Utf8.encode Utf8.decode_encode)

/-! ## Fields of an envelope -/

namespace Envelope

open Json (Outline.texts stringField?_write optionalField?_write intField?_write)

/-- The members of an envelope behind the first one. -/
def otherMembers (e : Envelope) : Members :=
  (match e.stack? with
    | some s => [("stack", .string s)]
    | none => [])
  ++ [("sourceTopic", .string e.sourceTopic), ("targetTopic", .string e.targetTopic),
      ("partition", .number (.ofInt32 e.partition)), ("offset", .number (.ofInt64 e.offset)),
      ("transformId", .string e.transformId), ("version", .number (.ofUInt32 e.version)),
      ("value", .string e.value), ("failedAt", .string e.failedAt)]

theorem toJson_eq (e : Envelope) :
    e.toJson = .object (("error", .string e.error) :: e.otherMembers) := rfl

theorem isScalar_of_mem (e : Envelope) :
    ∀ m ∈ ("error", Json.string e.error) :: e.otherMembers, m.2.IsScalar := by
  cases hs : e.stack? <;> simp [otherMembers, hs]

/-- The texts of the fields of a written envelope. -/
def fieldTexts (e : Envelope) : List (Option (List Char)) :=
  [some (Json.write (.string e.error)), e.stack?.map fun s => Json.write (.string s),
   some (Json.write (.string e.sourceTopic)), some (Json.write (.string e.targetTopic)),
   some (Json.write (.number (.ofInt32 e.partition))),
   some (Json.write (.number (.ofInt64 e.offset))), some (Json.write (.string e.transformId)),
   some (Json.write (.number (.ofUInt32 e.version))), some (Json.write (.string e.value)),
   some (Json.write (.string e.failedAt))]

/-- Every field is given once, the stack if there is one. -/
theorem fields_texts (e : Envelope) :
    (Json.Outline.object (Outline.texts (("error", .string e.error) :: e.otherMembers))).fields
      fieldNames = some e.fieldTexts := by
  cases hs : e.stack? <;>
    simp [Json.Outline.fields, Json.namedFields, fieldNames, Outline.texts, otherMembers,
      fieldTexts, hs]

theorem partitionField?_write (n : Int32) :
    Json.intField? Word.minInt32 Word.maxInt32 (some (Json.write (.number (.ofInt32 n)))) =
      some n.toInt := by
  have hlo := n.le_toInt
  have hhi := n.toInt_lt
  refine intField?_write _ ?_ ?_ <;> simp only [Word.minInt32, Word.maxInt32] <;> omega

theorem offsetField?_write (n : Int64) :
    Json.intField? Word.minInt64 Word.maxInt64 (some (Json.write (.number (.ofInt64 n)))) =
      some n.toInt := by
  have hlo := n.le_toInt
  have hhi := n.toInt_lt
  refine intField?_write _ ?_ ?_ <;> simp only [Word.minInt64, Word.maxInt64] <;> omega

theorem versionField?_write (n : UInt32) :
    Json.intField? 0 Word.maxUInt32 (some (Json.write (.number (.ofUInt32 n)))) =
      some (n.toNat : Int) := by
  have hhi := n.toNat_lt
  refine intField?_write _ (Int.natCast_nonneg _) ?_
  simp only [Word.maxUInt32]
  omega

/-- The fields of a written envelope are those of the envelope. -/
theorem ofFields?_fieldTexts (e : Envelope) : ofFields? e.fieldTexts = some e := by
  have hstack : Json.optionalField? Json.string? (e.stack?.map fun s => Json.write (.string s)) =
      some e.stack? := by
    cases e.stack? with
    | none => rfl
    | some s => exact optionalField?_write s
  have hversion : UInt32.ofInt (e.version.toNat : Int) = e.version := by
    have hlt := e.version.toNat_lt
    rw [UInt32.ofInt, Int.emod_eq_of_lt (by omega) (by omega), Int.toNat_natCast,
      UInt32.ofNat_toNat]
  simp [fieldTexts, ofFields?, stringField?_write, hstack, partitionField?_write,
    offsetField?_write, versionField?_write, hversion]

/-- **An envelope is read back from its text.** -/
theorem ofText?_text (e : Envelope) : ofText? e.text.toList = some e := by
  have hread := Json.Outline.read?_write e.isScalar_of_mem
  rw [ofText?, text, Json.text, String.toList_ofList, toJson_eq, hread]
  simp only [bind, Option.bind, fields_texts, ofFields?_fieldTexts]

end Envelope

/-! ## Messages behind dead letters -/

open Processing

/-- The envelope that a published value holds. -/
def envelope? (value : Text.Bytes) : Option Envelope :=
  match Utf8.decode value with
  | .ok s => Envelope.ofText? s
  | .error _ => none

theorem envelope?_encode (e : Envelope) : envelope? (Utf8.encode e.text) = some e := by
  simp only [envelope?, Utf8.decode_encode, Envelope.ofText?_text]

/-- **A dead letter keeps the message.**  The value published for a message that fails holds an
envelope with the origin of the message, the transform it failed under and the failure in
words, and the bytes of a value that is UTF-8 are those of the value in the envelope.  Every
envelope is read back from its text. -/
theorem dead_letter_keeps_message :
    (∀ e : Envelope, envelope? (Utf8.encode e.text) = some e) ∧
    ∀ (p : Processor) (at_ : Moment) (m : Message) (t : Transform) (f : Failure),
      apply t.program at_.now m.value = .error f →
      ∃ (r : Record) (e : Envelope), p.attempt at_ m t = .deadLetter r ∧
        (∀ o : Outbox, (p.process at_ o m (some t)).1.published =
          if o.failing then o.published else o.published ++ [r]) ∧
        envelope? r.value = some e ∧
        e.sourceTopic = m.topic ∧ e.partition = m.partition ∧ e.offset = m.offset ∧
        e.targetTopic = t.target ∧ e.transformId = t.id ∧ e.version = t.version ∧
        e.error = f.message ∧
        ∀ s : String, m.value = Utf8.encode s → Utf8.encode e.value = m.value := by
  refine ⟨envelope?_encode, fun p at_ m t f hf => ?_⟩
  obtain ⟨r, hattempt, hdead⟩ := attempt_of_error (p := p) hf
  refine ⟨r, Envelope.of m t f.message (some f.detail) at_.stamp, hattempt, fun o => ?_, ?_, rfl,
    rfl, rfl, rfl, rfl, rfl, rfl, fun s hs => ?_⟩
  · rw [process_some, hattempt]
    rfl
  · rw [hdead.value, envelope?_encode]
  · show Utf8.encode (Text.Utf8.lenient m.value) = m.value
    rw [hs, Text.Utf8.lenient_of_decode (Utf8.decode_encode s), String.ofList_toList]

/-- A value that breaks off behind a line break is no document, and it is found again. -/
theorem broken_text_is_kept :
    let m : Message := ⟨"orders.raw", 3, 17, none, Utf8.encode "\x7b\"a\":\n", Keyed.empty⟩
    let t : Transform := ⟨"t1", "orders.raw", "orders.enriched", 2, "$", .crashing "never run"⟩
    ∃ (f : Failure) (r : Record) (e : Envelope), apply t.program "now" m.value = .error f ∧
      (Processor.mk none).attempt ⟨"now", "stamp", "id"⟩ m t = .deadLetter r ∧
      envelope? r.value = some e ∧ e.offset = 17 ∧ Utf8.encode e.value = m.value := by
  intro m t
  have hchars : "\x7b\"a\":\n".toList = ['\x7b', '"', 'a', '"', ':', '\n'] := by decide
  obtain ⟨f, hf⟩ : ∃ f, apply t.program "now" m.value = .error f := by
    have hrefused : (Json.read ['\x7b', '"', 'a', '"', ':', '\n']).isOk = false := by
      decide +kernel
    rw [apply, decode_encode (by decide), hchars]
    cases hread : Json.read ['\x7b', '"', 'a', '"', ':', '\n'] with
    | error fault => exact ⟨_, rfl⟩
    | ok v =>
      rw [hread] at hrefused
      cases hrefused
  obtain ⟨r, e, hattempt, -, henvelope, -, -, hoffset, -, -, -, -, hvalue⟩ :=
    dead_letter_keeps_message.2 ⟨none⟩ ⟨"now", "stamp", "id"⟩ m t f hf
  exact ⟨f, r, e, hf, hattempt, henvelope, hoffset, hvalue _ rfl⟩

end Reshape.DeadLetter
