/-
# The marker of dead letters

A dead letter says in a header of its own why it is one.  Headers go over from a message to its
record, and this one with them: a dead letter that is delivered again and turned into a result
still says so.  A record therefore has the marker exactly if it is a dead letter or the message
has it (`marked_attempt_iff`), and along any number of hops the marker tells that one of them, or
one before them, ended in a dead letter (`marked_last_iff`).
-/
import Mathlib.Tactic
import Reshape.Proofs.Hops

namespace Reshape.Processing

open Text (Utf8.encode)

/-! ## One record -/

/-- The headers hold the marker of a dead letter. -/
def Marked (h : Headers) : Prop := h.contains DeadLetter.reasonHeader = true

theorem marked_iff {h : Headers} : Marked h ↔ h.get? DeadLetter.reasonHeader ≠ none := by
  rw [Marked, Keyed.contains, Option.isSome_iff_ne_none]

/-- The attempt is to publish a dead letter. -/
def Attempt.IsDeadLetter : Attempt → Prop
  | result _ => False
  | deadLetter _ => True

/-- The outcome tells the branch, whether publishing worked or not. -/
theorem Attempt.isDeadLetter_iff (published : Bool) (a : Attempt) :
    a.IsDeadLetter ↔ ∃ b, a.outcome published = .deadLettered b := by
  cases a with
  | result r => exact iff_of_false id fun ⟨b, hb⟩ => by cases hb
  | deadLetter r => exact iff_of_true trivial ⟨published, rfl⟩

/-- A record that is marked on its own account is marked, and any other one if the message is. -/
theorem Carries.marked_iff {m : Message} {id : String} {marked : Bool} {r : Record}
    (h : Carries m id marked r) : Marked r.headers ↔ marked = true ∨ Marked m.headers := by
  rw [Processing.marked_iff, Processing.marked_iff, h.reason]
  cases marked with
  | true => exact iff_of_true (Option.some_ne_none _) (Or.inl rfl)
  | false =>
    rw [if_neg Bool.false_ne_true]
    exact (or_iff_right Bool.false_ne_true).symm

/-- **A record is marked exactly if it is a dead letter or the message is marked.** -/
theorem marked_attempt_iff (p : Processor) (at_ : Moment) (m : Message) (t : Transform) :
    Marked (p.attempt at_ m t).record.headers ↔
      (p.attempt at_ m t).IsDeadLetter ∨ Marked m.headers := by
  cases ha : apply t.program at_.now m.value with
  | ok v =>
    obtain ⟨r, hat, hres⟩ := attempt_of_ok (p := p) ha
    rw [hat]
    exact hres.toCarries.marked_iff.trans (or_congr_left (iff_of_false Bool.false_ne_true id))
  | error e =>
    obtain ⟨r, hat, hdead⟩ := attempt_of_error (p := p) ha
    rw [hat]
    exact hdead.toCarries.marked_iff.trans (or_congr_left (iff_of_true rfl trivial))

/-! ## Hops -/

namespace Hop

/-- What is offered for the message that the record of the hop before is delivered as. -/
def attempt (h : Hop) (r : Record) : Attempt :=
  h.processor.attempt h.moment (h.message r) h.transform

/-- What is offered in a row of hops. -/
def attempts (r : Record) : List Hop → List Attempt
  | [] => []
  | h :: rest => h.attempt r :: attempts (h.attempt r).record rest

/-- The record of the last of a row of hops, or the one before them if there is none. -/
def last (r : Record) (hops : List Hop) : Record :=
  hops.foldl (fun r h => (h.attempt r).record) r

/-- **A marker is kept by every hop**, and set by those that end in a dead letter. -/
theorem marked_last_iff (r : Record) (hops : List Hop) :
    Marked (last r hops).headers ↔
      Marked r.headers ∨ ∃ a ∈ attempts r hops, a.IsDeadLetter := by
  induction hops generalizing r with
  | nil =>
    refine (or_iff_left ?_).symm
    rintro ⟨a, ha, -⟩
    exact absurd ha List.not_mem_nil
  | cons h rest ih =>
    have hfirst : Marked (h.attempt r).record.headers ↔
        (h.attempt r).IsDeadLetter ∨ Marked r.headers := marked_attempt_iff _ _ _ _
    calc Marked (last r (h :: rest)).headers
        ↔ Marked (h.attempt r).record.headers ∨
          ∃ a ∈ attempts (h.attempt r).record rest, a.IsDeadLetter := ih (h.attempt r).record
      _ ↔ Marked r.headers ∨ (h.attempt r).IsDeadLetter ∨
          ∃ a ∈ attempts (h.attempt r).record rest, a.IsDeadLetter := by
        rw [hfirst, or_comm (a := (h.attempt r).IsDeadLetter), or_assoc]
      _ ↔ Marked r.headers ∨ ∃ a ∈ attempts r (h :: rest), a.IsDeadLetter := by
        rw [attempts, List.exists_mem_cons_iff]

end Hop

/-- **The marker tells dead letters, and records with one before them.**  Without a transform
nothing is published.  With one, the record offered to the outbox is marked exactly if the outcome
is a dead letter or the message was marked.  However often it is delivered again, the last record
is marked exactly if this one is or one of the hops since ended in a dead letter. -/
theorem marker_tells_of_a_dead_letter (p : Processor) (at_ : Moment) (o : Outbox) (m : Message) :
    p.process at_ o m none = (o, .skipped) ∧
    ∀ t : Transform, ∃ r : Record,
      (p.process at_ o m (some t)).1.published =
        (if o.failing then o.published else o.published ++ [r]) ∧
      (Marked r.headers ↔
        (∃ b, (p.process at_ o m (some t)).2 = .deadLettered b) ∨ Marked m.headers) ∧
      ∀ hops : List Hop, Marked (Hop.last r hops).headers ↔
        Marked r.headers ∨ ∃ a ∈ Hop.attempts r hops, a.IsDeadLetter := by
  refine ⟨rfl, fun t => ⟨(p.attempt at_ m t).record, ?_, ?_, fun hops => ?_⟩⟩
  · rw [process_some]
  · rw [process_some, marked_attempt_iff, Attempt.isDeadLetter_iff (!o.failing)]
  · exact Hop.marked_last_iff _ hops

/-- A message whose value breaks off becomes a dead letter.  Delivered again with the headers of
that and a value that is whole, it is turned into a result, which is marked like the dead
letter. -/
theorem replayed_dead_letter_stays_marked :
    let p : Processor := ⟨none⟩
    let at_ : Moment := ⟨"now", "stamp", "id"⟩
    let t : Transform := ⟨"t1", "orders.raw", "orders.enriched", 2, "$", .ofTree .context⟩
    let broken : Message := ⟨"orders.raw", 3, 17, none, Utf8.encode "[1", Keyed.empty⟩
    let dead := (p.attempt at_ broken t).record
    let again : Message := { broken with value := Utf8.encode "[1]", headers := dead.headers }
    Expression.Program.compile t.expression = .ok t.program ∧
      (p.process at_ {} broken (some t)).2 = .deadLettered true ∧
      (p.process at_ {} broken (some t)).1.published = [dead] ∧
      (p.process at_ {} again (some t)).2 = .transformed true ∧
      ∃ r, (p.process at_ {} again (some t)).1.published = [r] ∧ Marked r.headers := by
  intro p at_ t broken dead again
  have hcompile : Expression.Program.compile "$" = .ok (.ofTree .context) := rfl
  have hdead : (p.process at_ {} broken (some t)).2 = .deadLettered true := by decide +kernel
  have hagain : (p.process at_ {} again (some t)).2 = .transformed true := by decide +kernel
  refine ⟨hcompile, hdead, ?_, hagain, (p.attempt at_ again t).record, ?_, ?_⟩
  · rw [process_some]
    rfl
  · rw [process_some]
    rfl
  · -- the dead letter is marked, and its headers are those of the message
    refine (marked_attempt_iff p at_ again t).2 (Or.inr ?_)
    refine (marked_attempt_iff p at_ broken t).2 (Or.inl ?_)
    rw [process_some] at hdead
    exact (Attempt.isDeadLetter_iff _ _).2 ⟨true, hdead⟩

end Reshape.Processing
