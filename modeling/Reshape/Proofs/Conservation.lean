/-
# No message is lost

A worker is told to start, to refresh, to let time pass and to shut down, while messages
are pushed and definitions and failures come and go, in any order.  Between two commands
the task waits, and every message that was pushed is then either committed or still held,
once; of each topic, the messages are committed in the order they were pushed.

Each command enters in the ledger what it pushes and what is handled meanwhile
(`sound_step`), hence so does every row of commands (`sound_run`).  What may fall between
the steps of a command is accounted for in `Reshape.Proofs.Streams`.
-/
import Mathlib.Tactic
import Reshape.Proofs.Ledger
import Reshape.Worker

namespace Reshape.Worker

open Consumption (Handling Ledger)
open Subscription (Kind Operation Setup Site)

namespace State

/-! ## What is handled -/

/-- What is handled during the ticks of the timer, at most `n`. -/
def ticking (c : Setup) : (n : Nat) → State → List Handling
  | 0, _ => []
  | n + 1, w =>
    match w.timer? with
    | none => []
    | some t =>
      if t.due ≤ w.clock then
        Operation.performing c .refresh w.site
          ++ ticking c n { (w.refresh c).1 with timer? := some (t.next w.clock) }
      else []

/-- What is handled during a command. -/
def handled (c : Setup) (w : State) : Command → List Handling
  | .start => if w.running then Operation.performing c .start w.site else []
  | .refresh => if w.running then Operation.performing c .refresh w.site else []
  | .push ms => Site.settling c { w.site with broker := w.site.broker.push ms }
  | .insert d =>
    let definitions := w.site.store.definitions ++ [d]
    Site.settling c { w.site with store := { w.site.store with definitions := definitions } }
  | .replace ds =>
    Site.settling c { w.site with store := { w.site.store with definitions := ds } }
  | .setFailing part on => Site.settling c (setFailing part on w.site)
  | .advance ms => ticking c (Timer.toleranceMs + 1) { w with clock := w.clock + ms }
  | .closeBroker => Site.settling c { w.site with broker := w.site.broker.close.1 }
  | .shutdown => if w.running then Site.settling c w.site.stopTask else []

/-! ## Runs -/

/-- The worker after a row of commands. -/
def run (c : Setup) (w : State) (commands : List Command) : State :=
  commands.foldl (fun w command => (w.step c command).1) w

/-- What is handled during a row of commands, in order. -/
def log (c : Setup) : State → List Command → List Handling
  | _, [] => []
  | w, command :: rest => w.handled c command ++ log c (w.step c command).1 rest

end State

/-- The messages that a command pushes. -/
def Command.pushes : Command → List Message
  | .push ms => ms
  | _ => []

/-- The messages that a row of commands pushes, in order. -/
def pushed (commands : List Command) : List Message := commands.flatMap Command.pushes

namespace State

/-! ## What a command keeps -/

/-- Between two commands no task has a message in hand, the task waits, and the ledger
agrees. -/
structure Sound (pushed : List Message) (log : List Handling) (s : Site) : Prop where
  rested : s.Rested
  waits : s.Waits
  accounts : s.Accounts pushed log

variable (c : Setup) {before : List Message} {log : List Handling}

/-- A worker that nothing was done with has nothing to account for. -/
theorem sound_new (store : Store) : Sound [] [] { store := store } :=
  ⟨⟨rfl, fun _ ht => nomatch ht⟩, (fun _ ht => nomatch ht), Ledger.new⟩

theorem sound_settle {s : Site} (hr : s.Rested) (h : s.Accounts before log) :
    Sound before (log ++ s.settling c) (s.settle c) :=
  ⟨Site.rested_settle c hr, Site.waits_settle c hr, Site.accounts_settle c hr h⟩

theorem sound_perform (kind : Kind) {s : Site} (h : Sound before log s) :
    Sound before (log ++ Operation.performing c kind s) (Operation.perform c kind s).1 :=
  have hr := Operation.rested_perform c kind h.rested
  ⟨hr.1, hr.2, Operation.accounts_perform c kind h.rested h.accounts⟩

theorem site_start (w : State) : (w.start c).1.site = (Operation.perform c .start w.site).1 := by
  unfold start
  split <;> rename_i h <;> rw [h]

theorem site_refresh (w : State) :
    (w.refresh c).1.site = (Operation.perform c .refresh w.site).1 := by
  unfold refresh
  split <;> rename_i h <;> rw [h]

theorem site_closeBroker (w : State) :
    (w.step c .closeBroker).1.site =
      Site.settle c { w.site with broker := w.site.broker.close.1 } := by
  simp only [step]
  cases h : w.site.broker.close with
  | mk broker answer => cases answer <;> rfl

theorem sound_ticks (n : Nat) {w : State} (h : Sound before log w.site) :
    Sound before (log ++ ticking c n w) (ticks c n w).site := by
  induction n generalizing log w with
  | zero => simpa [ticking, ticks] using h
  | succ n ih =>
    rw [ticking, ticks]
    cases w.timer? with
    | none => simpa using h
    | some t =>
      simp only
      split_ifs with hdue
      · -- the tick refreshes, and the ticks after it go on from there
        have hp := sound_perform c .refresh h
        rw [← site_refresh] at hp
        rw [← List.append_assoc]
        exact ih (w := { (w.refresh c).1 with timer? := some (t.next w.clock) }) hp
      · simpa using h

/-- A broker that is closed, or refuses to be, holds and committed what it did. -/
theorem close_keeps (b : Broker) :
    b.close.1.pending = b.pending ∧ b.close.1.committed = b.committed := by
  unfold Broker.close
  split <;> exact ⟨rfl, rfl⟩

theorem sound_shutdown {w : State} (h : Sound before log w.site) :
    Sound before (log ++ w.site.stopTask.settling c) (w.shutdown c).site := by
  have hs := sound_settle c (Site.rested_stopTask h.rested)
    (show w.site.stopTask.Accounts before log from h.accounts)
  obtain ⟨hpending, hcommitted⟩ := close_keeps (w.site.stopTask.settle c).broker
  refine ⟨⟨hs.rested.leaving, fun _ ht => nomatch ht⟩, (fun _ ht => nomatch ht), ?_⟩
  exact hs.accounts.of_eq hpending hcommitted rfl

/-- A part that is told to fail holds and committed what it did. -/
theorem accounts_setFailing (part : Part) (on : Bool) {s : Site} (h : s.Accounts before log) :
    (setFailing part on s).Accounts before log := by
  cases part <;> exact h.of_eq rfl rfl rfl

theorem rested_setFailing (part : Part) (on : Bool) {s : Site} (h : s.Rested) :
    (setFailing part on s).Rested := by
  cases part <;> exact ⟨h.leaving, h.isFree⟩

/-- A command enters in the ledger what it pushes and what is handled meanwhile. -/
theorem sound_step {w : State} (h : Sound before log w.site) (command : Command) :
    Sound (before ++ command.pushes) (log ++ w.handled c command)
      (w.step c command).1.site := by
  cases command with
  | start =>
    simp only [Command.pushes, List.append_nil, handled, step]
    split_ifs with hrun
    · rw [site_start]
      exact sound_perform c .start h
    · simpa using h
  | refresh =>
    simp only [Command.pushes, List.append_nil, handled, step]
    split_ifs with hrun
    · rw [site_refresh]
      exact sound_perform c .refresh h
    · simpa using h
  -- only here is anything pushed
  | push ms => exact sound_settle c ⟨h.rested.leaving, h.rested.isFree⟩ (h.accounts.push ms)
  | insert d =>
    simp only [Command.pushes, List.append_nil]
    exact sound_settle c ⟨h.rested.leaving, h.rested.isFree⟩ h.accounts
  | replace ds =>
    simp only [Command.pushes, List.append_nil]
    exact sound_settle c ⟨h.rested.leaving, h.rested.isFree⟩ h.accounts
  | setFailing part on =>
    simp only [Command.pushes, List.append_nil]
    exact sound_settle c (rested_setFailing part on h.rested)
      (accounts_setFailing part on h.accounts)
  | advance ms =>
    simp only [Command.pushes, List.append_nil]
    exact sound_ticks c _ h
  | closeBroker =>
    obtain ⟨hpending, hcommitted⟩ := close_keeps w.site.broker
    simp only [Command.pushes, List.append_nil]
    rw [site_closeBroker]
    exact sound_settle c ⟨h.rested.leaving, h.rested.isFree⟩
      (h.accounts.of_eq hpending hcommitted rfl)
  | shutdown =>
    simp only [Command.pushes, List.append_nil, handled, step]
    split_ifs with hrun
    · exact sound_shutdown c h
    · simpa using h

theorem sound_run {w : State} (h : Sound before log w.site) (commands : List Command) :
    Sound (before ++ pushed commands) (log ++ State.log c w commands)
      (w.run c commands).site := by
  induction commands generalizing before log w with
  | nil => simpa [pushed, State.log, run] using h
  | cons command rest ih =>
    rw [pushed, List.flatMap_cons, State.log, ← List.append_assoc, ← List.append_assoc]
    exact ih (sound_step c h command)

/-- **Every pushed message is committed or still held, once.**  After any row of commands
the task waits.  What is committed is what was handled, in order; what was handled and
what is held make up what was pushed, and of each topic in the order it was pushed.  For a
message one record was offered if its topic was in the snapshot in force, and none
otherwise, and no others were. -/
theorem pushed_is_committed_or_held (store : Store) (interval : Nat) (commands : List Command) :
    let w₀ : State := { site := { store := store }, interval := interval }
    let w := w₀.run c commands
    let log := w₀.log c commands
    (w.site.leaving = [] ∧ w.site.Waits)
      ∧ w.site.broker.committed = log.map (fun h => h.message.origin)
      ∧ (log.map Handling.message ++ w.site.broker.pending).Perm (pushed commands)
      ∧ (∀ topic, Consumption.ofTopic topic (log.map Handling.message)
            ++ Consumption.ofTopic topic w.site.broker.pending
          = Consumption.ofTopic topic (pushed commands))
      ∧ (∀ h ∈ log, h.attempts = if h.snapshot.contains h.message.topic then 1 else 0)
      ∧ w.site.outbox.attempts = (log.map Handling.attempts).sum := by
  intro w₀ w log
  have h := sound_run c (w := w₀) (sound_new store) commands
  rw [List.nil_append, List.nil_append] at h
  refine ⟨⟨h.rested.leaving, h.waits⟩, h.accounts.committed, h.accounts.messages.symm, ?_,
    h.accounts.attempts, h.accounts.total⟩
  intro topic
  rw [← Consumption.ofTopic_append]
  exact (h.accounts.order topic).symm

end State

end Reshape.Worker
