/-
# The laps of a consumption task

What is seen of a task is a row of *marks*: the requests that it makes and the inputs
that it waited for.  However receiving, publishing, committing and stopping fall
together, the marks are those of a row of *laps* (`Lap`), the last one perhaps cut short.
A lap that handles a message commits it once, after its publishing has ended, and before
the next lap begins.

The invariant `Along` says of each phase how far the lap under way has come.  Every step
keeps it (`along_step`), hence so does every run (`along_follow`).
-/
import Mathlib.Tactic
import Reshape.Consumption

namespace Reshape.Consumption

open Processing (Attempt Moment Processor)

/-! ## Marks -/

/-- What is seen of a task: what it asks for, and what it is told. -/
inductive Mark
  | asked (r : Task.Request)
  | told (input : Task.Input)

namespace Task

/-- The task waits for an input of this kind. -/
def awaits (t : Task) (input : Input) : Bool :=
  match t.phase, input with
  | .receiving, .received .. | .receiving, .receiveFailed _ => true
  | .publishing .., .published _ => true
  | .committing _, .committed _ => true
  | .pausing, .pauseOver => true
  | _, _ => false

/-- The mark of what the task asks for, if it asks for something. -/
def asking (t : Task) : List Mark :=
  match t.request with
  | .nothing => []
  | r => [.asked r]

/-- The marks of one input: what the task did not wait for leaves none. -/
def marks (p : Processor) (at_ : Moment) (t : Task) (input : Input) : List Mark :=
  if t.awaits input then .told input :: (t.step p at_ input).asking else []

/-- The task after a row of inputs, each at its moment. -/
def follow (p : Processor) (t : Task) (inputs : List (Moment × Input)) : Task :=
  inputs.foldl (fun t told => t.step p told.1 told.2) t

/-- The marks of a row of inputs. -/
def trace (p : Processor) (t : Task) : List (Moment × Input) → List Mark
  | [] => []
  | (at_, input) :: rest => t.marks p at_ input ++ trace p (t.step p at_ input) rest

end Task

/-- All marks of a task that starts with so many topics. -/
def transcript (p : Processor) (topics : Nat) (inputs : List (Moment × Task.Input)) :
    List Mark :=
  (Task.start topics).asking ++ (Task.start topics).trace p inputs

/-- The messages that were received, in order. -/
def received (marks : List Mark) : List Message :=
  marks.filterMap fun
    | .told (.received m _) => some m
    | _ => none

/-- The commits that were attempted, in order. -/
def commits (marks : List Mark) : List Origin :=
  marks.filterMap fun
    | .asked (.commit o) => some o
    | _ => none

/-! ## Laps -/

/-- What a task does between two receives: it handles a message, or it pauses after a
fault. -/
inductive Lap
  | handling (at_ : Moment) (m : Message) (t? : Option Transform) (d : Task.Delivery)
      (accepted : Bool)
  | fault (f : TransportFault)

namespace Lap

/-- The marks between a received message and its commit: those of one publishing, if the
topic of the message has a transform. -/
def publishing (a? : Option Attempt) (d : Task.Delivery) : List Mark :=
  match a? with
  | some a => [.asked (.publish a.record), .told (.published d)]
  | none => []

/-- The marks of a lap from its receive to its commit. -/
def untilCommit (p : Processor) (at_ : Moment) (m : Message) (t? : Option Transform)
    (d : Task.Delivery) : List Mark :=
  .asked .receive :: .told (.received m t?) :: publishing (p.attempt? at_ m t?) d
    ++ [.asked (.commit m.origin)]

/-- The marks of a whole lap. -/
def marks (p : Processor) : Lap → List Mark
  | handling at_ m t? d accepted => untilCommit p at_ m t? d ++ [.told (.committed accepted)]
  | fault f => [.asked .receive, .told (.receiveFailed f), .asked .pause, .told .pauseOver]

end Lap

/-- The marks of laps one after the other. -/
def lapMarks (p : Processor) (laps : List Lap) : List Mark := laps.flatMap (Lap.marks p)

/-! ## How far a lap has come -/

/-- The marks of a lap under way, by the phase of the task. -/
inductive Cut (p : Processor) : Phase → List Mark → Prop
  | idle : Cut p .idle []
  | receiving : Cut p .receiving [.asked .receive]
  | publishing {at_ : Moment} {m : Message} {t? : Option Transform} {a : Attempt}
      (h : p.attempt? at_ m t? = some a) :
      Cut p (.publishing m a)
        [.asked .receive, .told (.received m t?), .asked (.publish a.record)]
  | committing (at_ : Moment) (m : Message) (t? : Option Transform) (d : Task.Delivery) :
      Cut p (.committing m) (Lap.untilCommit p at_ m t? d)
  | pausing (f : TransportFault) :
      Cut p .pausing [.asked .receive, .told (.receiveFailed f), .asked .pause]
  | endedBetween : Cut p .ended []
  | endedReceiving : Cut p .ended [.asked .receive]
  | endedClosed : Cut p .ended [.asked .receive, .told (.receiveFailed .closed)]
  | endedPausing (f : TransportFault) :
      Cut p .ended [.asked .receive, .told (.receiveFailed f), .asked .pause]

/-- What was seen of the task is a row of laps and the part of one more that its phase
says. -/
def Along (p : Processor) (t : Task) (seen : List Mark) : Prop :=
  ∃ laps cut, seen = lapMarks p laps ++ cut ∧ Cut p t.phase cut

theorem lapMarks_concat (p : Processor) (laps : List Lap) (lap : Lap) :
    lapMarks p (laps ++ [lap]) = lapMarks p laps ++ lap.marks p := by
  rw [lapMarks, List.flatMap_append, List.flatMap_singleton, ← lapMarks]

/-- The part that was seen of a lap is the beginning of a whole one. -/
theorem prefix_of_cut {p : Processor} {phase : Phase} {cut : List Mark}
    (h : Cut p phase cut) : ∃ lap : Lap, cut <+: lap.marks p := by
  cases h with
  | idle | endedBetween => exact ⟨.fault .closed, List.nil_prefix⟩
  | receiving | endedReceiving => exact ⟨.fault .closed, ⟨_, rfl⟩⟩
  | @publishing at_ m t? a h =>
    refine ⟨.handling at_ m t? .accepted true,
      [.told (.published .accepted), .asked (.commit m.origin), .told (.committed true)], ?_⟩
    simp [Lap.marks, Lap.untilCommit, Lap.publishing, h]
  | committing at_ m t? d =>
    exact ⟨.handling at_ m t? d true, [.told (.committed true)], rfl⟩
  | pausing f | endedPausing f => exact ⟨.fault f, ⟨[.told .pauseOver], rfl⟩⟩
  | endedClosed => exact ⟨.fault .closed, ⟨[.asked .pause, .told .pauseOver], rfl⟩⟩

/-- All that was seen is the beginning of a row of laps. -/
theorem prefix_of_along {p : Processor} {t : Task} {seen : List Mark} (h : Along p t seen) :
    ∃ laps : List Lap, seen <+: lapMarks p laps := by
  obtain ⟨laps, cut, rfl, hcut⟩ := h
  obtain ⟨lap, hlap⟩ := prefix_of_cut hcut
  refine ⟨laps ++ [lap], ?_⟩
  rw [lapMarks_concat]
  exact (List.prefix_append_right_inj _).mpr hlap

/-! ## Steps -/

/-- An input that a task does not wait for changes nothing, unless it says stop. -/
theorem step_eq_self {p : Processor} {at_ : Moment} {t : Task} {input : Task.Input}
    (hw : t.awaits input = false) (hs : input ≠ .stop) : t.step p at_ input = t := by
  unfold Task.step
  split
  · exact absurd rfl hs
  all_goals first | rfl | simp_all [Task.awaits]

@[simp] theorem step_stop (p : Processor) (at_ : Moment) (t : Task) :
    t.step p at_ .stop = t.stop := by
  unfold Task.step
  split <;> first | rfl | simp_all

@[simp] theorem marks_stop (p : Processor) (at_ : Moment) (t : Task) :
    t.marks p at_ .stop = [] := by
  obtain ⟨phase, stopping⟩ := t
  cases phase <;> rfl

/-- Told to stop, a task goes no further in its lap. -/
theorem along_stop {p : Processor} {t : Task} {seen : List Mark} (h : Along p t seen) :
    Along p t.stop seen := by
  obtain ⟨⟨phase, stopping⟩, laps, cut, rfl, hcut⟩ := t, h
  refine ⟨laps, cut, rfl, ?_⟩
  cases hcut with
  | publishing h => exact .publishing h
  | committing at_ m t? d => exact .committing at_ m t? d
  | idle | endedBetween => exact .endedBetween
  | receiving | endedReceiving => exact .endedReceiving
  | pausing f | endedPausing f => exact .endedPausing f
  | endedClosed => exact .endedClosed

/-- An input that the task waits for takes it further in its lap, or into the next. -/
theorem along_step_of_awaits {p : Processor} {t : Task} {seen : List Mark} (at_ : Moment)
    {input : Task.Input} (h : Along p t seen) (hw : t.awaits input = true) :
    Along p (t.step p at_ input)
      (seen ++ .told input :: (t.step p at_ input).asking) := by
  obtain ⟨⟨phase, stopping⟩, laps, cut, rfl, hcut⟩ := t, h
  cases hcut with
  | receiving =>
    cases input with
    | received m t? =>
      cases ha : p.attempt? at_ m t? with
      | some a =>
        have hstep : Task.step p at_ ⟨.receiving, stopping⟩ (.received m t?)
            = ⟨.publishing m a, stopping⟩ := by
          simp [Task.step, Task.taken, ha]
        rw [hstep]
        exact ⟨laps, _, by rw [List.append_assoc]; rfl, .publishing ha⟩
      | none =>
        have hstep : Task.step p at_ ⟨.receiving, stopping⟩ (.received m t?)
            = ⟨.committing m, stopping⟩ := by
          simp [Task.step, Task.taken, ha]
        rw [hstep]
        refine ⟨laps, _, ?_, .committing at_ m t? .accepted⟩
        rw [Lap.untilCommit, ha, List.append_assoc]
        rfl
    | receiveFailed f =>
      by_cases hf : f = .closed
      · subst hf
        exact ⟨laps, _, by rw [List.append_assoc]; rfl, .endedClosed⟩
      · have hstep : Task.step p at_ ⟨.receiving, stopping⟩ (.receiveFailed f)
            = ⟨.pausing, stopping⟩ := by
          cases f <;> first | rfl | exact absurd rfl hf
        rw [hstep]
        exact ⟨laps, _, by rw [List.append_assoc]; rfl, .pausing f⟩
    | published | committed | pauseOver | stop => cases hw
  | @publishing at_' m t? a ha =>
    cases input with
    | published d =>
      refine ⟨laps, _, ?_, .committing at_' m t? d⟩
      rw [Lap.untilCommit, ha, List.append_assoc]
      rfl
    | received | receiveFailed | committed | pauseOver | stop => cases hw
  | committing at_' m t? d =>
    cases input with
    | committed accepted =>
      -- the lap is whole, and the task asks for the next message unless it was told to stop
      have hlap : lapMarks p laps ++ Lap.untilCommit p at_' m t? d
            ++ [Mark.told (.committed accepted)]
          = lapMarks p (laps ++ [Lap.handling at_' m t? d accepted]) := by
        rw [lapMarks_concat, Lap.marks, List.append_assoc]
      cases stopping with
      | true =>
        refine ⟨laps ++ [Lap.handling at_' m t? d accepted], [], ?_, .endedBetween⟩
        rw [← hlap, List.append_nil]
        rfl
      | false =>
        refine ⟨laps ++ [Lap.handling at_' m t? d accepted], _, ?_, .receiving⟩
        rw [← hlap, List.append_assoc _ [_] [_]]
        rfl
    | received | receiveFailed | published | pauseOver | stop => cases hw
  | pausing f =>
    cases input with
    | pauseOver =>
      refine ⟨laps ++ [Lap.fault f], _, ?_, .receiving⟩
      rw [lapMarks_concat, List.append_assoc, List.append_assoc]
      rfl
    | received | receiveFailed | published | committed | stop => cases hw
  | idle | endedBetween | endedReceiving | endedClosed | endedPausing f => cases input <;> cases hw

/-- Every input keeps what was seen along a row of laps. -/
theorem along_step {p : Processor} {t : Task} {seen : List Mark} (at_ : Moment)
    (input : Task.Input) (h : Along p t seen) :
    Along p (t.step p at_ input) (seen ++ t.marks p at_ input) := by
  rw [Task.marks]
  cases hw : t.awaits input with
  | true => exact along_step_of_awaits at_ h hw
  | false =>
    rw [if_neg (by simp), List.append_nil]
    by_cases hs : input = .stop
    · subst hs
      rw [step_stop]
      exact along_stop h
    · rw [step_eq_self hw hs]
      exact h

/-! ## Runs -/

/-- Every row of inputs keeps what was seen along a row of laps. -/
theorem along_follow {p : Processor} (inputs : List (Moment × Task.Input)) {t : Task}
    {seen : List Mark} (h : Along p t seen) :
    Along p (t.follow p inputs) (seen ++ t.trace p inputs) := by
  induction inputs generalizing t seen with
  | nil =>
    rw [Task.trace, List.append_nil]
    exact h
  | cons told rest ih =>
    obtain ⟨at_, input⟩ := told
    have hnext := ih (along_step at_ input h)
    rw [List.append_assoc] at hnext
    exact hnext

/-- A new task is at the beginning of its first lap. -/
theorem along_start (p : Processor) (topics : Nat) :
    Along p (Task.start topics) (Task.start topics).asking := by
  by_cases h : topics = 0
  · subst h
    exact ⟨[], [], rfl, .idle⟩
  · have hstart : Task.start topics = ⟨.receiving, false⟩ := by
      rw [Task.start, if_neg h]
    rw [hstart]
    exact ⟨[], [.asked .receive], rfl, .receiving⟩

theorem along_transcript (p : Processor) (topics : Nat) (inputs : List (Moment × Task.Input)) :
    Along p ((Task.start topics).follow p inputs) (transcript p topics inputs) :=
  along_follow inputs (along_start p topics)

theorem follow_append (p : Processor) (t : Task) (inputs more : List (Moment × Task.Input)) :
    t.follow p (inputs ++ more) = (t.follow p inputs).follow p more :=
  List.foldl_append

theorem trace_append (p : Processor) (t : Task) (inputs more : List (Moment × Task.Input)) :
    t.trace p (inputs ++ more) = t.trace p inputs ++ (t.follow p inputs).trace p more := by
  induction inputs generalizing t with
  | nil => rfl
  | cons told rest ih =>
    obtain ⟨at_, input⟩ := told
    rw [List.cons_append, Task.trace, Task.trace, ih, List.append_assoc]
    rfl

/-- What is seen of a longer run begins with what is seen of a shorter one. -/
theorem transcript_append (p : Processor) (topics : Nat)
    (inputs more : List (Moment × Task.Input)) :
    transcript p topics (inputs ++ more)
      = transcript p topics inputs ++ ((Task.start topics).follow p inputs).trace p more := by
  rw [transcript, transcript, trace_append, List.append_assoc]

/-! ## Received and committed -/

@[simp] theorem received_append (a b : List Mark) :
    received (a ++ b) = received a ++ received b := List.filterMap_append

@[simp] theorem commits_append (a b : List Mark) :
    commits (a ++ b) = commits a ++ commits b := List.filterMap_append

/-- The commit that a phase still owes: that of a message whose publishing has not ended. -/
def Phase.owed : Phase → List Origin
  | .publishing m _ => [m.origin]
  | _ => []

/-- Publishing neither receives nor commits. -/
theorem received_publishing (a? : Option Attempt) (d : Task.Delivery) :
    received (Lap.publishing a? d) = [] := by
  cases a? <;> rfl

theorem commits_publishing (a? : Option Attempt) (d : Task.Delivery) :
    commits (Lap.publishing a? d) = [] := by
  cases a? <;> rfl

theorem received_untilCommit (p : Processor) (at_ : Moment) (m : Message)
    (t? : Option Transform) (d : Task.Delivery) :
    received (Lap.untilCommit p at_ m t? d) = [m]
      ∧ commits (Lap.untilCommit p at_ m t? d) = [m.origin] := by
  rw [Lap.untilCommit, received_append, commits_append]
  show m :: received (Lap.publishing _ d) ++ [] = _ ∧ commits (Lap.publishing _ d) ++ _ = _
  rw [received_publishing, commits_publishing]
  exact ⟨rfl, rfl⟩

/-- A whole lap commits what it received. -/
theorem received_lap (p : Processor) (lap : Lap) :
    (received (lap.marks p)).map Message.origin = commits (lap.marks p) := by
  cases lap with
  | handling at_ m t? d accepted =>
    obtain ⟨hrec, hcom⟩ := received_untilCommit p at_ m t? d
    rw [Lap.marks, received_append, commits_append, hrec, hcom]
    rfl
  | fault f => rfl

theorem received_lapMarks (p : Processor) (laps : List Lap) :
    (received (lapMarks p laps)).map Message.origin = commits (lapMarks p laps) := by
  induction laps with
  | nil => rfl
  | cons lap laps ih =>
    rw [lapMarks, List.flatMap_cons, ← lapMarks, received_append, commits_append,
      List.map_append, received_lap, ih]

/-- A lap under way has committed what it received, but for what its phase owes. -/
theorem received_cut {p : Processor} {phase : Phase} {cut : List Mark}
    (h : Cut p phase cut) : (received cut).map Message.origin = commits cut ++ phase.owed := by
  cases h with
  | committing at_ m t? d =>
    obtain ⟨hrec, hcom⟩ := received_untilCommit p at_ m t? d
    rw [hrec, hcom]
    rfl
  | idle | receiving | publishing | pausing | endedBetween | endedReceiving | endedClosed
  | endedPausing => rfl

/-- All that was received is committed, in order, but for what the phase owes. -/
theorem received_along {p : Processor} {t : Task} {seen : List Mark} (h : Along p t seen) :
    (received seen).map Message.origin = commits seen ++ t.phase.owed := by
  obtain ⟨laps, cut, rfl, hcut⟩ := h
  rw [received_append, commits_append, List.map_append, received_lapMarks, received_cut hcut,
    List.append_assoc]

theorem length_owed_le (phase : Phase) : phase.owed.length ≤ 1 := by
  cases phase <;> simp [Phase.owed]

theorem owed_of_hasEnded {t : Task} (h : t.hasEnded = true) : t.phase.owed = [] := by
  obtain ⟨phase, stopping⟩ := t
  cases phase <;> first | rfl | cases h

/-- What a task owes is committed as soon as its publishing has ended. -/
theorem owed_prefix_commits (p : Processor) {t : Task} {more : List (Moment × Task.Input)}
    (h : ∃ told ∈ more, ∃ d, told.2 = .published d) :
    t.phase.owed <+: commits (t.trace p more) := by
  induction more generalizing t with
  | nil =>
    obtain ⟨told, hmem, -⟩ := h
    cases hmem
  | cons first rest ih =>
    obtain ⟨at_, input⟩ := first
    obtain ⟨phase, stopping⟩ := t
    cases phase with
    | publishing m a =>
      by_cases hi : ∃ d, input = .published d
      · obtain ⟨d, rfl⟩ := hi
        exact ⟨_, rfl⟩
      · -- the task goes on publishing, and the publishing ends later
        have hrest : ∃ told ∈ rest, ∃ d, told.2 = .published d := by
          obtain ⟨told, hmem, d, hd⟩ := h
          rcases List.mem_cons.mp hmem with rfl | hmem
          · exact absurd ⟨d, hd⟩ hi
          · exact ⟨told, hmem, d, hd⟩
        have hw : Task.awaits ⟨.publishing m a, stopping⟩ input = false := by
          cases input <;> first | rfl | exact absurd ⟨_, rfl⟩ hi
        have hm : Task.marks p at_ ⟨.publishing m a, stopping⟩ input = [] := by
          rw [Task.marks, hw]
          rfl
        rw [Task.trace, hm, List.nil_append]
        by_cases hs : input = .stop
        · subst hs
          exact ih (t := ⟨.publishing m a, true⟩) hrest
        · rw [step_eq_self hw hs]
          exact ih (t := ⟨.publishing m a, stopping⟩) hrest
    | idle | receiving | committing | pausing | ended => exact List.nil_prefix

/-! ## Stopping -/

/-- The task receives nothing more: it has ended, or it will with the message in hand. -/
def Task.Finishing (t : Task) : Prop :=
  match t.phase with
  | .ended => True
  | .publishing .. | .committing _ => t.stopping = true
  | _ => False

/-- A task told to stop receives nothing more. -/
theorem finishing_stop (t : Task) : t.stop.Finishing := by
  obtain ⟨phase, stopping⟩ := t
  cases phase <;> trivial

/-- A task that receives nothing more goes on so, and asks for no message. -/
theorem finishing_step {p : Processor} {t : Task} (at_ : Moment) (input : Task.Input)
    (h : t.Finishing) :
    (t.step p at_ input).Finishing ∧ received (t.marks p at_ input) = []
      ∧ Mark.asked .receive ∉ t.marks p at_ input := by
  obtain ⟨phase, stopping⟩ := t
  cases phase with
  | idle | receiving | pausing => cases h
  | ended =>
    cases input <;> simp [Task.marks, Task.awaits, Task.step, Task.stop, Task.Finishing, received]
  | publishing m a =>
    cases h
    cases input <;> simp [Task.marks, Task.awaits, Task.step, Task.stop, Task.Finishing,
      Task.asking, Task.request, received]
  | committing m =>
    cases h
    cases input <;> simp [Task.marks, Task.awaits, Task.step, Task.stop, Task.Finishing,
      Task.asking, Task.request, received]

theorem finishing_follow {p : Processor} (inputs : List (Moment × Task.Input)) {t : Task}
    (h : t.Finishing) :
    (t.follow p inputs).Finishing ∧ received (t.trace p inputs) = []
      ∧ Mark.asked .receive ∉ t.trace p inputs := by
  induction inputs generalizing t with
  | nil => exact ⟨h, rfl, List.not_mem_nil⟩
  | cons told rest ih =>
    obtain ⟨at_, input⟩ := told
    obtain ⟨hstep, hrec, hask⟩ := finishing_step (p := p) at_ input h
    obtain ⟨hrest, hrec', hask'⟩ := ih hstep
    refine ⟨hrest, ?_, ?_⟩
    · rw [Task.trace, received_append, hrec, hrec']
      rfl
    · rw [Task.trace, List.mem_append, not_or]
      exact ⟨hask, hask'⟩

/-- **Records are committed in order, one by one.**  What is seen of a task is the
beginning of a row of laps, so that each received message is committed once, after its
publishing has ended and before the next receive.  Hence the commits are those of the
received messages in order, all but that of the last one while it is being published, and
that one follows when its publishing has ended.  After a stop nothing is received, and the
task has ended or goes on with the message in hand; when it has ended, everything received
was committed. -/
theorem transcript_commits_in_order (p : Processor) (topics : Nat)
    (inputs : List (Moment × Task.Input)) :
    (∃ laps : List Lap, transcript p topics inputs <+: lapMarks p laps) ∧
    (∃ owed : List Origin, owed.length ≤ 1 ∧
      (received (transcript p topics inputs)).map Message.origin
        = commits (transcript p topics inputs) ++ owed) ∧
    (∀ more, (∃ told ∈ more, ∃ d, told.2 = .published d) →
      (received (transcript p topics inputs)).map Message.origin
        <+: commits (transcript p topics (inputs ++ more))) ∧
    (∀ (at_ : Moment) (more : List (Moment × Task.Input)), ∃ later : List Mark,
      transcript p topics (inputs ++ (at_, Task.Input.stop) :: more)
        = transcript p topics inputs ++ later ∧
      received later = [] ∧ Mark.asked .receive ∉ later ∧
      ((Task.start topics).follow p (inputs ++ (at_, Task.Input.stop) :: more)).Finishing) ∧
    (((Task.start topics).follow p inputs).hasEnded = true →
      commits (transcript p topics inputs)
        = (received (transcript p topics inputs)).map Message.origin) := by
  have halong := along_transcript p topics inputs
  have hrec := received_along halong
  refine ⟨prefix_of_along halong, ⟨_, length_owed_le _, hrec⟩, ?_, ?_, ?_⟩
  · intro more hmore
    rw [hrec, transcript_append, commits_append]
    exact (List.prefix_append_right_inj _).mpr (owed_prefix_commits p hmore)
  · intro at_ more
    obtain ⟨hfin, hrec, hask⟩ := finishing_follow (p := p) more
      (finishing_stop ((Task.start topics).follow p inputs))
    refine ⟨_, transcript_append p topics inputs _, ?_, ?_, ?_⟩
    · rw [Task.trace, marks_stop, step_stop]
      exact hrec
    · rw [Task.trace, marks_stop, step_stop]
      exact hask
    · rw [follow_append, Task.follow, List.foldl_cons, step_stop]
      exact hfin
  · intro hend
    rw [hrec, owed_of_hasEnded hend, List.append_nil]

end Reshape.Consumption
