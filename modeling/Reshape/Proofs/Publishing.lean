/-
# One record for each message

A message of a topic with a transform leads to exactly one record that is offered to the
outbox, and a message of another topic to none.  Which record it is follows from what the
value of the message *holds*: a document that the program turns into another one gives a
result for the target topic, and everything else gives a dead letter.

The two cases are described without the functions that decode, apply and publish: `Holds` says
which document a value stands for, `Fails` names each way to have no result, and `IsResult` and
`IsDeadLetter` say field by field what the record is.  Which texts are JSON, and why a text is
not, is left to the reader (`Json.read`), and nothing here depends on what it accepts.
-/
import Mathlib.Tactic
import Reshape.Processing
import Reshape.Proofs.Utf8

namespace Reshape.Processing

open Text (Bytes isBlankText Utf8.decode Utf8.encode Utf8.decode_encode
  Utf8.encode_eq_nil_iff Utf8.eq_encode_of_decode Utf8.ne_encode_of_decode_eq_error)

/-! ## What a value holds -/

/-- The document that a value holds: null if it is empty, and else the document whose
JSON text it encodes. -/
inductive Holds : Bytes → Json → Prop
  | nothing : Holds [] .null
  | text {s : String} {v : Json} (hs : s ≠ "") (hv : Json.read s.toList = .ok v) :
      Holds (Utf8.encode s) v

/-- The empty value is decoded as null. -/
theorem decode_nil : decode [] = .ok .null := rfl

/-- A value that encodes a text is decoded as that text is read. -/
theorem decode_encode {s : String} (hs : s ≠ "") :
    decode (Utf8.encode s) =
      (Json.read s.toList).mapError fun fault => .notJson fault.cause (fault.place s.toList) := by
  have hne : (Utf8.encode s).isEmpty = false := by
    rw [List.isEmpty_eq_false_iff]
    exact mt Utf8.encode_eq_nil_iff.mp hs
  simp only [decode, hne, Bool.false_eq_true, if_false, Utf8.decode_encode]

/-- A value that encodes no text is not decoded. -/
theorem decode_of_fault {value : Bytes} {fault : Text.Utf8.Fault}
    (h : Utf8.decode value = .error fault) : decode value = .error (.notUtf8 fault) := by
  have hne : value.isEmpty = false := by
    rw [List.isEmpty_eq_false_iff]
    exact Utf8.ne_encode_of_decode_eq_error h ""
  simp only [decode, hne, Bool.false_eq_true, if_false, h]

/-- Every value is empty, or encodes a text with characters, or encodes none. -/
theorem value_cases (value : Bytes) :
    value = [] ∨ (∃ s, s ≠ "" ∧ value = Utf8.encode s)
      ∨ (∃ fault, Utf8.decode value = .error fault) := by
  cases h : Utf8.decode value with
  | error fault => exact Or.inr (Or.inr ⟨fault, rfl⟩)
  | ok cs =>
    have hv := Utf8.eq_encode_of_decode h
    by_cases hs : String.ofList cs = ""
    · left
      rw [hv, Utf8.encode_eq_nil_iff]
      exact hs
    · exact Or.inr (Or.inl ⟨String.ofList cs, hs, hv⟩)

/-- Decoding answers the document that the value holds. -/
theorem decode_eq_ok_iff {value : Bytes} {v : Json} : decode value = .ok v ↔ Holds value v := by
  constructor
  · intro h
    rcases value_cases value with rfl | ⟨s, hs, rfl⟩ | ⟨fault, hf⟩
    · rw [decode_nil] at h
      cases h
      exact .nothing
    · rw [decode_encode hs] at h
      cases hr : Json.read s.toList with
      | error fault =>
        rw [hr] at h
        cases h
      | ok w =>
        rw [hr] at h
        cases h
        exact .text hs hr
    · rw [decode_of_fault hf] at h
      cases h
  · intro h
    cases h with
    | nothing => exact decode_nil
    | text hs hv =>
      rw [decode_encode hs, hv]
      rfl

/-- On a value that holds a document the program is run, and its faults are failures. -/
theorem apply_of_holds {p : Expression.Program} {now : String} {value : Bytes} {input : Json}
    (h : Holds value input) :
    apply p now value = (p.run now input).mapError .ofProgram := by
  rw [apply, decode_eq_ok_iff.mpr h]
  rfl

/-- A program gives a result exactly for the document that the value holds. -/
theorem apply_eq_ok_iff {p : Expression.Program} {now : String} {value : Bytes} {v : Json} :
    apply p now value = .ok v ↔ ∃ input, Holds value input ∧ p.run now input = .ok v := by
  constructor
  · intro h
    cases hd : decode value with
    | error e =>
      rw [apply, hd] at h
      cases h
    | ok input =>
      have hv := decode_eq_ok_iff.mp hd
      rw [apply_of_holds hv] at h
      cases hr : p.run now input with
      | error f =>
        rw [hr] at h
        cases h
      | ok w =>
        rw [hr] at h
        cases h
        exact ⟨input, hv, hr⟩
  · rintro ⟨input, hv, hr⟩
    rw [apply_of_holds hv, hr]
    rfl

/-- What a record takes over from the message it is made of: its key, or the correlation
id in place of one, and its headers with that id, and marked as a dead letter or not. -/
structure Carries (m : Message) (id : String) (marked : Bool) (r : Record) : Prop where
  ownKey : ∀ k, m.key? = some k → k ≠ [] → r.key = k
  idAsKey : m.key? = none ∨ m.key? = some [] → r.key = Utf8.encode id
  requestId : r.headers.get? Headers.requestId = some (Utf8.encode id)
  reason : r.headers.get? DeadLetter.reasonHeader =
    if marked then some (Utf8.encode DeadLetter.failedReason)
    else m.headers.get? DeadLetter.reasonHeader
  otherHeaders : ∀ name, name ≠ Headers.requestId → name ≠ DeadLetter.reasonHeader →
    r.headers.get? name = m.headers.get? name

/-- The record for the target topic with the document `v`. -/
structure IsResult (at_ : Moment) (m : Message) (t : Transform) (v : Json) (r : Record) : Prop
    extends Carries m (m.correlationId at_.freshId) false r where
  topic : r.topic = t.target
  value : r.value = Utf8.encode v.text

/-- The record for the dead-letter topic with an envelope that tells of the failure `e`. -/
structure IsDeadLetter (p : Processor) (at_ : Moment) (m : Message) (t : Transform)
    (e : Failure) (r : Record) : Prop
    extends Carries m (m.correlationId at_.freshId) true r where
  configuredTopic : ∀ d, p.deadLetterTopic? = some d → isBlankText d = false → r.topic = d
  ownTopic : (∀ d, p.deadLetterTopic? = some d → isBlankText d = true) →
    r.topic = m.topic ++ ".dlq"
  value : r.value =
    Utf8.encode (DeadLetter.Envelope.of m t e.message (some e.detail) at_.stamp).text

/-- The key of a record is the message's own unless that is empty. -/
theorem recordKey_of_ne_nil {m : Message} {k : Bytes} (id : String) (h : m.key? = some k)
    (hk : k ≠ []) : m.recordKey id = k := by
  cases k with
  | nil => exact absurd rfl hk
  | cons b bs => rw [Message.recordKey, h]

/-- Without a key of its own the message lends the record its correlation id. -/
theorem recordKey_of_empty {m : Message} (id : String)
    (h : m.key? = none ∨ m.key? = some []) : m.recordKey id = Utf8.encode id := by
  rcases h with h | h <;> rw [Message.recordKey, h]

/-- The two headers that are set have different names. -/
theorem reasonHeader_ne_requestId : DeadLetter.reasonHeader ≠ Headers.requestId := by decide

/-- A record with the correlation id set carries over the rest of the message. -/
theorem carries_setText (m : Message) (id topic : String) (value : Bytes) :
    Carries m id false
      ⟨topic, m.recordKey id, value, m.headers.setText Headers.requestId id⟩ where
  ownKey := fun _ h hk => recordKey_of_ne_nil id h hk
  idAsKey := fun h => recordKey_of_empty id h
  requestId := by simp [Headers.setText]
  reason := by simp [Headers.setText, reasonHeader_ne_requestId.symm]
  otherHeaders := by
    intro name h1 h2
    simp [Headers.setText, Ne.symm h1]

/-- A record with the headers of a dead letter carries over the rest of the message. -/
theorem carries_headers (m : Message) (id topic : String) (value : Bytes) :
    Carries m id true ⟨topic, m.recordKey id, value, DeadLetter.headers m.headers id⟩ where
  ownKey := fun _ h hk => recordKey_of_ne_nil id h hk
  idAsKey := fun h => recordKey_of_empty id h
  requestId := by simp [DeadLetter.headers, Headers.setText, reasonHeader_ne_requestId]
  reason := by simp [DeadLetter.headers, Headers.setText]
  otherHeaders := by
    intro name h1 h2
    simp [DeadLetter.headers, Headers.setText, Ne.symm h1, Ne.symm h2]

/-- A configured dead-letter topic is used unless it is blank. -/
theorem topic_of_not_blank {d : String} (source : String) (h : isBlankText d = false) :
    DeadLetter.topic (some d) source = d := by
  simp [DeadLetter.topic, h]

/-- Without a dead-letter topic that is not blank, each source has its own. -/
theorem topic_of_blank {configured? : Option String} (source : String)
    (h : ∀ d, configured? = some d → isBlankText d = true) :
    DeadLetter.topic configured? source = source ++ ".dlq" := by
  cases configured? with
  | none => rfl
  | some d => simp [DeadLetter.topic, h d rfl]

/-! ## The attempt -/

/-- With a result, the attempt is to publish it to the target topic. -/
theorem attempt_of_ok {p : Processor} {at_ : Moment} {m : Message} {t : Transform} {v : Json}
    (h : apply t.program at_.now m.value = .ok v) :
    ∃ r, p.attempt at_ m t = .result r ∧ IsResult at_ m t v r := by
  have hat : p.attempt at_ m t = .result ⟨t.target, m.recordKey (m.correlationId at_.freshId),
      Utf8.encode v.text,
      m.headers.setText Headers.requestId (m.correlationId at_.freshId)⟩ := by
    rw [Processor.attempt, h]
  exact ⟨_, hat, carries_setText m _ _ _, rfl, rfl⟩

/-- Without a result, the attempt is to publish a dead letter. -/
theorem attempt_of_error {p : Processor} {at_ : Moment} {m : Message} {t : Transform}
    {e : Failure} (h : apply t.program at_.now m.value = .error e) :
    ∃ r, p.attempt at_ m t = .deadLetter r ∧ IsDeadLetter p at_ m t e r := by
  have hat : p.attempt at_ m t = .deadLetter ⟨DeadLetter.topic p.deadLetterTopic? m.topic,
      m.recordKey (m.correlationId at_.freshId),
      Utf8.encode
        (DeadLetter.Envelope.of m t e.message (some e.detail) at_.stamp).text,
      DeadLetter.headers m.headers (m.correlationId at_.freshId)⟩ := by
    rw [Processor.attempt, h]
  refine ⟨_, hat, carries_headers m _ _ _, ?_, topic_of_blank m.topic, by with_reducible rfl⟩
  intro d hd hb
  rw [hd]
  exact topic_of_not_blank m.topic hb

/-- An attempt is offered to the outbox once, and the outcome tells its branch. -/
theorem process_some (p : Processor) (at_ : Moment) (o : Outbox) (m : Message) (t : Transform) :
    p.process at_ o m (some t) =
      ({ o with
          attempts := o.attempts + 1
          published :=
            if o.failing then o.published else o.published ++ [(p.attempt at_ m t).record] },
        (p.attempt at_ m t).outcome (!o.failing)) := by
  cases hf : o.failing <;> simp [Processor.process, Processor.attempt?, Outbox.publish, hf]

end Reshape.Processing
