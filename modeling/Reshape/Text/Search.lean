/-
# Searching in texts

`cut` finds the first occurrence of a pattern and returns the text before and after
it.  Splitting and replacing repeat it on the text after, so that occurrences do not
overlap and the leftmost is taken first.
-/

namespace Reshape.Text

/-! ## The first occurrence -/

/-- The text before and after the first occurrence of `p`. -/
def cut (p : List Char) : List Char → Option (List Char × List Char)
  | [] => if p.isEmpty then some ([], []) else none
  | c :: rest =>
    if p.isPrefixOf (c :: rest) then some ([], (c :: rest).drop p.length)
    else (cut p rest).map fun (before, after) => (c :: before, after)

/-- Whether `p` occurs in `s`. -/
def occursIn (p s : List Char) : Bool := (cut p s).isSome

/-- The text before and after the last occurrence of the character `x`. -/
def cutLast (x : Char) : List Char → Option (List Char × List Char)
  | [] => none
  | c :: rest =>
    match cutLast x rest with
    | some (before, after) => some (c :: before, after)
    | none => if c == x then some ([], rest) else none

/-! ## Splitting and joining -/

/-- The pieces of `s` between the first `n` occurrences of `p` and after the last of
them. -/
def splitAtMost (p : List Char) : Nat → List Char → List (List Char)
  | 0, s => [s]
  | n + 1, s =>
    match cut p s with
    | none => [s]
    | some (before, after) => before :: splitAtMost p n after

/-- The pieces of `s` between occurrences of the nonempty pattern `p`; a text has at
most as many of them as characters. -/
def split (p s : List Char) : List (List Char) := splitAtMost p s.length s

/-- The pieces in order with the separator between them. -/
def join (sep : List Char) : List (List Char) → List Char
  | [] => []
  | [s] => s
  | s :: t :: rest => s ++ sep ++ join sep (t :: rest)

/-- The text with the first `n` occurrences of `p` replaced by `r`. -/
def replaceAtMost (p r : List Char) (n : Nat) (s : List Char) : List Char :=
  join r (splitAtMost p (min n s.length) s)

/-- The text with every occurrence of `p` replaced by `r`. -/
def replaceAll (p r s : List Char) : List Char := join r (split p s)

/-! ## Laws -/

/-- A pattern that is a prefix of the text is its first occurrence. -/
theorem eq_append_of_isPrefixOf {p s : List Char} (h : p.isPrefixOf s = true) :
    s = p ++ s.drop p.length := by
  obtain ⟨t, rfl⟩ := List.isPrefixOf_iff_prefix.1 h
  simp

/-- Cutting loses nothing but the pattern. -/
theorem eq_append_of_cut {p s before after : List Char}
    (h : cut p s = some (before, after)) : s = before ++ p ++ after := by
  induction s generalizing before with
  | nil =>
    cases p with
    | nil => simp [cut] at h; simp [h]
    | cons => simp [cut] at h
  | cons c rest ih =>
    by_cases hp : p.isPrefixOf (c :: rest)
    · simp only [cut, hp, if_true, Option.some.injEq, Prod.mk.injEq] at h
      obtain ⟨rfl, rfl⟩ := h
      simpa using eq_append_of_isPrefixOf hp
    · simp only [cut, hp, Bool.false_eq_true, if_false, Option.map_eq_some_iff,
        Prod.mk.injEq, Prod.exists] at h
      obtain ⟨b, a, hb, rfl, rfl⟩ := h
      simp [ih hb]

/-- Joining the pieces with the pattern gives the text back. -/
theorem join_splitAtMost (p : List Char) (n : Nat) (s : List Char) :
    join p (splitAtMost p n s) = s := by
  induction n generalizing s with
  | zero => rfl
  | succ n ih =>
    cases h : cut p s with
    | none => simp [splitAtMost, h, join]
    | some ba =>
      obtain ⟨before, after⟩ := ba
      have hs := eq_append_of_cut h
      have hne : splitAtMost p n after ≠ [] := by
        cases n with
        | zero => simp [splitAtMost]
        | succ m => simp only [splitAtMost]; split <;> simp
      obtain ⟨t, rest, ht⟩ := List.exists_cons_of_ne_nil hne
      simp only [splitAtMost, h]
      rw [ht, join, ← ht, ih, hs]

end Reshape.Text
