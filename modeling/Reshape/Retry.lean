/-
# Retrying

Something that may fail is attempted several times, with waits in between that double
up to a bound.  The times of the attempts are in milliseconds from the first one.
-/

namespace Reshape.Retry

/-- How often and at which pace to try. -/
structure Policy where
  maxAttempts : Nat := 30
  initialMs : Nat := 100
  maxMs : Nat := 5000
  deriving DecidableEq, Repr

/-- When attempts were made, and how the last one ended. -/
structure Outcome (ε α : Type) where
  times : List Nat
  result : Except ε α

variable {ε α : Type}

/-- The attempts from the attempt number `k` at the time `now` on, if so many more are
allowed and the wait after this one is `wait`. -/
def attemptsFrom (maxMs : Nat) (attempt : Nat → Except ε α) :
    (more k now wait : Nat) → Outcome ε α
  | 0, k, now, _ => ⟨[now], attempt k⟩
  | more + 1, k, now, wait =>
    match attempt k with
    | .ok v => ⟨[now], .ok v⟩
    | .error _ =>
      let later := attemptsFrom maxMs attempt more (k + 1) (now + wait) (min (wait * 2) maxMs)
      ⟨now :: later.times, later.result⟩

/-- The attempts under a policy, numbered from one; at least one is made. -/
def run (p : Policy) (attempt : Nat → Except ε α) : Outcome ε α :=
  attemptsFrom p.maxMs attempt (p.maxAttempts - 1) 1 0 p.initialMs

end Reshape.Retry
