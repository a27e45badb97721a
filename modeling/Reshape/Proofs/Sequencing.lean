/-
# Computations one after another

A computation with a state that may fail is followed by another where it succeeds, from the state
that it leaves (`run_bind_of_ok`), and by nothing where it fails (`run_bind_of_error`).  So if both
together succeed, each of them does (`exists_of_run_bind`).  Parsers and evaluations are such
computations.
-/

namespace Reshape.Expression

variable {σ ε α β : Type} {m : StateT σ (Except ε) α} {f : α → StateT σ (Except ε) β} {s t : σ}

theorem run_bind_of_ok {x : α} (h : m.run s = .ok (x, t)) : (m >>= f).run s = (f x).run t := by
  rw [StateT.run_bind, h]
  rfl

theorem run_bind_of_error {e : ε} (h : m.run s = .error e) : (m >>= f).run s = .error e := by
  rw [StateT.run_bind, h]
  rfl

theorem exists_of_run_bind {y : β × σ} (h : (m >>= f).run s = .ok y) :
    ∃ x t, m.run s = .ok (x, t) ∧ (f x).run t = .ok y := by
  cases hm : m.run s with
  | error e =>
    rw [run_bind_of_error hm] at h
    cases h
  | ok r =>
    rw [run_bind_of_ok hm] at h
    exact ⟨r.1, r.2, rfl, h⟩

end Reshape.Expression
