/-
# Records that are delivered again

The target topic of one transform may be the source topic of another, and dead letters
are replayed: a record is delivered as a message with its key and its headers, a record is
made of that message, and so on, over any number of *hops*.

Behind the first hop nothing is decided anew.  A record names its correlation id in a
header, trimmed and in UTF-8, and has a key (`Traced`).  A message with such a header has
that id, whatever it is a message about, and so the record made of it is traced in the same
way (`traced_next`).
-/
import Mathlib.Tactic
import Reshape.Proofs.Publishing
import Reshape.Proofs.Trimming

namespace Reshape.Processing

open Text (Bytes nonBlank? nonBlank?_of_no_blanks nonBlank?_of_nonBlank? Utf8.decode_encode
  Utf8.encode Utf8.encode_eq_nil_iff Utf8.lenient_of_decode)

/-! ## Fresh correlation ids -/

/-- The digits that fresh correlation ids are written with. -/
def hexDigits : List Char := "0123456789abcdef".toList

/-- A text in the form of a fresh correlation id: groups of 8, 4, 4, 4 and 12 hexadecimal
digits with hyphens between them. -/
structure IsUuid (s : String) : Prop where
  groups : (s.toList.splitOn '-').map List.length = [8, 4, 4, 4, 12]
  digits : ∀ c ∈ s.toList, c = '-' ∨ c ∈ hexDigits

theorem isBlank_of_mem_hexDigits {c : Char} (h : c ∈ '-' :: hexDigits) :
    Text.isBlank c = false := by
  have hall : ('-' :: hexDigits).all (fun c => !Text.isBlank c) = true := by decide
  simpa using List.all_eq_true.1 hall c h

/-- A fresh correlation id is neither blank nor padded. -/
theorem IsUuid.nonBlank? {s : String} (h : IsUuid s) : nonBlank? s = some s := by
  refine nonBlank?_of_no_blanks ?_ fun c hc => ?_
  · rintro rfl
    exact absurd h.groups (by decide)
  · exact isBlank_of_mem_hexDigits (List.mem_cons.2 (h.digits c hc))

/-! ## Ids and keys of messages -/

/-- The correlation id of a message is trimmed and has a character, if a fresh one has. -/
theorem nonBlank?_correlationId {fresh : String} (hf : nonBlank? fresh = some fresh)
    (m : Message) : nonBlank? (m.correlationId fresh) = some (m.correlationId fresh) := by
  rw [Message.correlationId]
  cases hid : m.carriedId? with
  | none => exact hf
  | some id =>
    obtain ⟨bytes, -, hb⟩ := Option.bind_eq_some_iff.1 hid
    exact nonBlank?_of_nonBlank? hb

/-- A message whose header holds a trimmed id has that id. -/
theorem carriedId?_of_header {m : Message} {id : String} (hid : nonBlank? id = some id)
    (h : m.headers.get? Headers.requestId = some (Utf8.encode id)) : m.carriedId? = some id := by
  rw [Message.carriedId?, h, Option.bind_some, Utf8.lenient_of_decode (Utf8.decode_encode id),
    String.ofList_toList, hid]

/-- The key of a record is never empty, as its correlation id is not. -/
theorem recordKey_ne_nil (m : Message) {id : String} (hid : id ≠ "") : m.recordKey id ≠ [] := by
  rw [Message.recordKey]
  split
  · exact List.cons_ne_nil _ _
  · exact mt Utf8.encode_eq_nil_iff.1 hid

/-- Whatever is published of a message carries over its key and headers. -/
theorem carries_attempt (p : Processor) (at_ : Moment) (m : Message) (t : Transform) :
    ∃ marked, Carries m (m.correlationId at_.freshId) marked (p.attempt at_ m t).record := by
  cases ha : apply t.program at_.now m.value with
  | ok v =>
    obtain ⟨r, hat, hres⟩ := attempt_of_ok (p := p) ha
    rw [hat]
    exact ⟨false, hres.toCarries⟩
  | error e =>
    obtain ⟨r, hat, hdead⟩ := attempt_of_error (p := p) ha
    rw [hat]
    exact ⟨true, hdead.toCarries⟩

/-! ## Hops -/

/-- A hop behind the first: the record of the hop before is delivered from some origin, with
some value, and a record is made of it. -/
structure Hop where
  origin : Origin
  value : Bytes
  processor : Processor
  moment : Moment
  transform : Transform

namespace Hop

/-- The message that the record of the hop before is delivered as. -/
def message (h : Hop) (r : Record) : Message where
  topic := h.origin.topic
  partition := h.origin.partition
  offset := h.origin.offset
  key? := some r.key
  value := h.value
  headers := r.headers

/-- The record made of it. -/
def record (h : Hop) (r : Record) : Record :=
  (h.processor.attempt h.moment (h.message r) h.transform).record

/-- The messages of a row of hops, each with the record made of it. -/
def trail (r : Record) : List Hop → List (Message × Record)
  | [] => []
  | h :: rest => (h.message r, h.record r) :: trail (h.record r) rest

end Hop

/-- The record can be traced to a message with headers `h`: it names the id, it has the key,
and it has the other headers of the message. -/
structure Traced (h : Headers) (id : String) (key : Bytes) (r : Record) : Prop where
  requestId : r.headers.get? Headers.requestId = some (Utf8.encode id)
  key : r.key = key
  otherHeaders : ∀ name, name ≠ Headers.requestId → name ≠ DeadLetter.reasonHeader →
    r.headers.get? name = h.get? name

theorem traced_attempt (p : Processor) (at_ : Moment) (m : Message) (t : Transform) :
    Traced m.headers (m.correlationId at_.freshId) (m.recordKey (m.correlationId at_.freshId))
      (p.attempt at_ m t).record := by
  obtain ⟨marked, hc⟩ := carries_attempt p at_ m t
  refine ⟨hc.requestId, ?_, hc.otherHeaders⟩
  rw [Processor.attempt]
  split <;> rfl

/-- A traced record is delivered as a message with its id, and the record made of that
message is traced in the same way. -/
theorem traced_next {headers : Headers} {id : String} {key : Bytes} {r : Record}
    (hid : nonBlank? id = some id) (hkey : key ≠ []) (h : Traced headers id key r) (hop : Hop) :
    (hop.message r).carriedId? = some id ∧ Traced headers id key (hop.record r) := by
  have hcarried : (hop.message r).carriedId? = some id := carriedId?_of_header hid h.requestId
  refine ⟨hcarried, ?_⟩
  obtain ⟨marked, hc⟩ := carries_attempt hop.processor hop.moment (hop.message r) hop.transform
  rw [Message.correlationId, hcarried] at hc
  refine ⟨hc.requestId, ?_, fun name h₁ h₂ => ?_⟩
  · exact hc.ownKey key (congrArg some h.key) hkey
  · exact (hc.otherHeaders name h₁ h₂).trans (h.otherHeaders name h₁ h₂)

theorem traced_trail {headers : Headers} {id : String} {key : Bytes} {r : Record}
    (hid : nonBlank? id = some id) (hkey : key ≠ []) (h : Traced headers id key r)
    (hops : List Hop) :
    ∀ x ∈ Hop.trail r hops, x.1.carriedId? = some id ∧ Traced headers id key x.2 := by
  induction hops generalizing r with
  | nil => exact fun x hx => absurd hx List.not_mem_nil
  | cons hop rest ih =>
    have hnext := traced_next hid hkey h hop
    intro x hx
    rcases List.mem_cons.1 hx with rfl | hx
    · exact hnext
    · exact ih hnext.2 x hx

/-- **Correlation id and key survive any number of hops.**  The record published for a
message names its correlation id and has a key that is not empty.  Whenever it, or a record
made of it later, is delivered again, the message has the id of the first hop, so no fresh
one is taken.  The record made of that message has the key of the first record, names the
same id, and has the headers of the first message but for the two that are set. -/
theorem hops_keep_id_and_key (p : Processor) (at_ : Moment) (m : Message) (t : Transform)
    (hfresh : IsUuid at_.freshId) (hops : List Hop) :
    let id := m.correlationId at_.freshId
    let first := (p.attempt at_ m t).record
    id ≠ "" ∧ first.key ≠ [] ∧ Traced m.headers id first.key first ∧
      ∀ x ∈ Hop.trail first hops,
        (x.1.carriedId? = some id ∧ ∀ fresh, x.1.correlationId fresh = id)
          ∧ Traced m.headers id first.key x.2 := by
  intro id first
  have hid : nonBlank? id = some id := nonBlank?_correlationId hfresh.nonBlank? m
  have hne : id ≠ "" := (Text.nonBlank?_eq_some_iff.1 hid).2
  have htraced : Traced m.headers id (m.recordKey id) first := traced_attempt p at_ m t
  have hkey : first.key ≠ [] := by
    rw [htraced.key]
    exact recordKey_ne_nil m hne
  have hown : Traced m.headers id first.key first :=
    ⟨htraced.requestId, rfl, htraced.otherHeaders⟩
  refine ⟨hne, hkey, hown, fun x hx => ?_⟩
  obtain ⟨hcarried, hx'⟩ := traced_trail hid hkey hown hops x hx
  refine ⟨⟨hcarried, fun fresh => ?_⟩, hx'⟩
  rw [Message.correlationId, hcarried]
  rfl

/-- A message without a key and with a blank header, whose record is delivered twice. -/
theorem blank_header_is_settled_once :
    let fresh := "00112233-4455-4677-8899-aabbccddeeff"
    let at_ : Moment := ⟨"now", "stamp", fresh⟩
    let t : Transform := ⟨"t1", "orders.raw", "orders.enriched", 2, "$", .crashing "broken"⟩
    let m : Message := ⟨"orders.raw", 3, 17, none, Utf8.encode "1",
      Keyed.ofList [(Headers.requestId, [32, 9])]⟩
    let hop : Hop := ⟨⟨"orders.raw.dlq", 0, 5⟩, Utf8.encode "2", ⟨none⟩, ⟨"later", "stamp", ""⟩, t⟩
    let first := ((Processor.mk none).attempt at_ m t).record
    IsUuid at_.freshId ∧ m.correlationId fresh = fresh ∧
      ∀ x ∈ Hop.trail first [hop, hop],
        x.1.carriedId? = some fresh ∧ x.2.key = Utf8.encode fresh := by
  intro fresh at_ t m hop first
  have hdigits : (fresh.toList.all fun c => decide (c = '-' ∨ c ∈ hexDigits)) = true := by
    decide +kernel
  have hfresh : IsUuid at_.freshId :=
    ⟨by decide +kernel, fun c hc => of_decide_eq_true (List.all_eq_true.1 hdigits c hc)⟩
  have hid : m.correlationId fresh = fresh := by decide +kernel
  have hkey : first.key = Utf8.encode fresh := by decide +kernel
  obtain ⟨-, -, -, htrail⟩ := hops_keep_id_and_key ⟨none⟩ at_ m t hfresh [hop, hop]
  refine ⟨hfresh, hid, fun x hx => ?_⟩
  obtain ⟨⟨hcarried, -⟩, hx'⟩ := htrail x hx
  exact ⟨hcarried.trans (congrArg some hid), hx'.key.trans hkey⟩

end Reshape.Processing
