/-
# The pace of retries

With `f` failures before the first success, `f + 1` attempts are made or as many as are allowed,
whichever is less, and at least one (`times_attemptsFrom`).  The result is that of the last one
(`result_attemptsFrom`).

The wait doubles behind each attempt and is bounded when it is doubled (`Policy.wait`).  So all
waits but the first one are bounded; the first one is as long as the policy says, even if that is
longer than its bound.
-/
import Mathlib.Tactic
import Mathlib.Algebra.BigOperators.Intervals
import Reshape.Retry

namespace Reshape.Retry

/-! ## Waits -/

/-- Bounding a wait before it is multiplied does not change what it is bounded to. -/
theorem min_min_mul (a b : ℕ) {c : ℕ} (hc : 0 < c) : min (min a b * c) b = min (a * c) b := by
  have hb : b ≤ b * c := Nat.le_mul_of_pos_right b hc
  rcases le_total a b with hab | hba
  · rw [min_eq_left hab]
  · have ha : b ≤ a * c := hb.trans (Nat.mul_le_mul_right c hba)
    rw [min_eq_right hba, min_eq_right hb, min_eq_right ha]

namespace Policy

/-- The wait behind the attempt number `k + 1`. -/
def wait (p : Policy) : ℕ → ℕ
  | 0 => p.initialMs
  | k + 1 => min (p.initialMs * 2 ^ (k + 1)) p.maxMs

/-- The time of the attempt number `k + 1`, if all attempts before it have failed. -/
def timeOf (p : Policy) (k : ℕ) : ℕ := ∑ j ∈ Finset.range k, p.wait j

/-- The policy that is left behind the first wait. -/
def slower (p : Policy) : Policy := { p with initialMs := min (p.initialMs * 2) p.maxMs }

variable (p : Policy)

theorem timeOf_zero : p.timeOf 0 = 0 := Finset.sum_range_zero _

theorem timeOf_succ (k : ℕ) : p.timeOf (k + 1) = p.timeOf k + p.wait k :=
  Finset.sum_range_succ _ k

/-- **The wait of the loop under way is that of its policy**: what is left behind the first wait
waits as the policy does one attempt later. -/
theorem wait_slower (k : ℕ) : p.slower.wait k = p.wait (k + 1) := by
  cases k with
  | zero =>
    show min (p.initialMs * 2) p.maxMs = min (p.initialMs * 2 ^ 1) p.maxMs
    rw [pow_one]
  | succ k =>
    show min (min (p.initialMs * 2) p.maxMs * 2 ^ (k + 1)) p.maxMs =
      min (p.initialMs * 2 ^ (k + 2)) p.maxMs
    rw [min_min_mul _ _ (Nat.two_pow_pos (k + 1)), mul_assoc, ← pow_succ']

theorem timeOf_slower (k : ℕ) : p.initialMs + p.slower.timeOf k = p.timeOf (k + 1) := by
  simp only [timeOf, wait_slower]
  rw [Finset.sum_range_succ' p.wait, Nat.add_comm]
  rfl

/-- Only the first wait can be other than the bounded power of two. -/
theorem wait_eq_iff (k : ℕ) :
    p.wait k = min (p.initialMs * 2 ^ k) p.maxMs ↔ k ≠ 0 ∨ p.initialMs ≤ p.maxMs := by
  cases k with
  | zero => simp [wait]
  | succ k => simp [wait]

theorem wait_le_iff (k : ℕ) : p.wait k ≤ p.maxMs ↔ k ≠ 0 ∨ p.initialMs ≤ p.maxMs := by
  cases k with
  | zero => simp [wait]
  | succ k => simp [wait]

end Policy

/-! ## Attempts -/

variable {ε α : Type} {attempt : ℕ → Except ε α} {fault : ℕ → ε} {v : α}

/-- From the attempt number `k` on, `f` attempts fail and the next one succeeds. -/
structure Recovers (attempt : ℕ → Except ε α) (fault : ℕ → ε) (v : α) (k f : ℕ) : Prop where
  fails : ∀ j, k ≤ j → j < k + f → attempt j = .error (fault j)
  succeeds : attempt (k + f) = .ok v

theorem Recovers.next {k f : ℕ} (h : Recovers attempt fault v k (f + 1)) :
    attempt k = .error (fault k) ∧ Recovers attempt fault v (k + 1) f where
  left := h.fails k le_rfl (by omega)
  right :=
    { fails := fun j hk hf => h.fails j (by omega) (by omega)
      succeeds := by
        have hlast := h.succeeds
        rwa [show k + (f + 1) = k + 1 + f by omega] at hlast }

/-- **Attempts are made until one succeeds or no more are allowed**, each at its time. -/
theorem times_attemptsFrom (p : Policy) (more now : ℕ) {k f : ℕ}
    (h : Recovers attempt fault v k f) :
    (attemptsFrom p.maxMs attempt more k now p.initialMs).times =
      (List.range (min f more + 1)).map (now + p.timeOf ·) := by
  induction more generalizing p k f now with
  | zero => simp [attemptsFrom, p.timeOf_zero]
  | succ more ih =>
    cases f with
    | zero =>
      have hok : attempt k = .ok v := h.succeeds
      simp [attemptsFrom, hok, p.timeOf_zero]
    | succ f =>
      obtain ⟨herror, hnext⟩ := h.next
      have hlater := ih p.slower (now + p.initialMs) hnext
      have htimes : ∀ i, now + p.initialMs + p.slower.timeOf i = now + p.timeOf (i + 1) := by
        intro i
        rw [Nat.add_assoc, p.timeOf_slower]
      rw [attemptsFrom, herror, Nat.succ_min_succ, List.range_succ_eq_map, List.map_cons,
        List.map_map, p.timeOf_zero]
      simp only [htimes] at hlater
      exact congrArg (now :: ·) hlater

/-- **The result is that of the last attempt.** -/
theorem result_attemptsFrom (p : Policy) (more now : ℕ) {k f : ℕ}
    (h : Recovers attempt fault v k f) :
    (attemptsFrom p.maxMs attempt more k now p.initialMs).result =
      if f ≤ more then .ok v else .error (fault (k + more)) := by
  induction more generalizing p k f now with
  | zero =>
    cases f with
    | zero => exact h.succeeds
    | succ f => exact h.next.1
  | succ more ih =>
    cases f with
    | zero =>
      have hok : attempt k = .ok v := h.succeeds
      simp [attemptsFrom, hok]
    | succ f =>
      obtain ⟨herror, hnext⟩ := h.next
      have hlater := ih p.slower (now + p.initialMs) hnext
      rw [show k + 1 + more = k + (more + 1) by omega] at hlater
      rw [attemptsFrom, herror]
      simp only [Nat.succ_le_succ_iff]
      exact hlater

/-- **Retries keep to their policy but for the first wait.**  If the first `f` attempts fail and the
next one succeeds, so many attempts are made, or all that are allowed, the result is that of the
last one, and between one attempt and the next the wait of the policy passes.  The wait behind
attempt number `k + 1` is the initial one doubled `k` times and bounded, except that the first one
is not bounded: a policy whose initial wait is longer than its bound waits longer than that once. -/
theorem retries_keep_to_their_policy (p : Policy) {f : ℕ}
    (hfails : ∀ k, 1 ≤ k → k ≤ f → attempt k = .error (fault k))
    (hsucceeds : attempt (f + 1) = .ok v) :
    (run p attempt).times.length = min (f + 1) (max 1 p.maxAttempts)
      ∧ (run p attempt).times = (List.range (min (f + 1) (max 1 p.maxAttempts))).map p.timeOf
      ∧ (run p attempt).result =
          (if f < max 1 p.maxAttempts then .ok v else .error (fault (max 1 p.maxAttempts)))
      ∧ (∀ k, p.timeOf (k + 1) = p.timeOf k + p.wait k)
      ∧ (∀ k, p.wait k = min (p.initialMs * 2 ^ k) p.maxMs ↔ k ≠ 0 ∨ p.initialMs ≤ p.maxMs)
      ∧ ∀ k, p.wait k ≤ p.maxMs ↔ k ≠ 0 ∨ p.initialMs ≤ p.maxMs := by
  have h : Recovers attempt fault v 1 f :=
    { fails := fun j h1 hf => hfails j h1 (by omega)
      succeeds := by rwa [Nat.add_comm] }
  have hallowed : p.maxAttempts - 1 + 1 = max 1 p.maxAttempts := by omega
  have htimes : (run p attempt).times =
      (List.range (min (f + 1) (max 1 p.maxAttempts))).map p.timeOf := by
    rw [run, times_attemptsFrom p _ 0 h, ← hallowed, Nat.succ_min_succ]
    simp only [Nat.zero_add]
  have hresult : (run p attempt).result =
      (if f < max 1 p.maxAttempts then .ok v else .error (fault (max 1 p.maxAttempts))) := by
    rw [run, result_attemptsFrom p _ 0 h, ← hallowed, Nat.add_comm 1]
    simp only [Nat.lt_succ_iff]
  refine ⟨?_, htimes, hresult, p.timeOf_succ, p.wait_eq_iff, p.wait_le_iff⟩
  rw [htimes, List.length_map, List.length_range]

/-- The attempts number 1 and 2 fail, and then all succeed. -/
def thirdTime (k : ℕ) : Except ℕ String := if k ≤ 2 then .error k else .ok "connected"

theorem third_attempt_succeeds :
    (∀ k, 1 ≤ k → k ≤ 2 → thirdTime k = .error k) ∧ thirdTime 3 = .ok "connected"
      ∧ (run ⟨5, 10, 15⟩ thirdTime).times.length = 3
      ∧ (run ⟨5, 10, 15⟩ thirdTime).times = [0, 10, 25]
      ∧ (run ⟨5, 10, 15⟩ thirdTime).result = .ok "connected" := by
  have hfails : ∀ k, 1 ≤ k → k ≤ 2 → thirdTime k = .error (id k) := fun k _ hk => if_pos hk
  have hsucceeds : thirdTime (2 + 1) = .ok "connected" := rfl
  obtain ⟨hlength, htimes, hresult, -, -, -⟩ :=
    retries_keep_to_their_policy ⟨5, 10, 15⟩ hfails hsucceeds
  exact ⟨hfails, rfl, hlength, htimes.trans (by decide), hresult⟩

/-- A first wait of 10 is not bounded by 5. -/
theorem first_wait_is_not_bounded :
    (run ⟨2, 10, 5⟩ fun k => if k ≤ 1 then .error k else .ok "connected").times = [0, 10]
      ∧ Policy.timeOf ⟨2, 10, 5⟩ 1 = 10 ∧ Policy.wait ⟨2, 10, 5⟩ 0 = 10
      ∧ 10 ≠ min (10 * 2 ^ 0) 5 ∧ ¬ 10 ≤ 5 := by
  decide

end Reshape.Retry
