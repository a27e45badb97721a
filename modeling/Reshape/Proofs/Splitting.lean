/-
# Texts and their pieces

A pattern is searched for from the left, and what it is found in is cut behind it
(`isFirst_of_cut`).  Doing so again and again gives the pieces of a text (`Pieces`): none of them
has the pattern in it, there is more than one exactly if the pattern occurs, and joined with
another text between them they are the text with all occurrences replaced (`Replaced`).  So the
four built-ins that search all find the same occurrences, whether or not these could overlap.

A text is cut at most as often as it has characters, which is often enough for a pattern that is
not empty (`pieces_splitAtMost`).
-/
import Mathlib.Tactic
import Reshape.Proofs.Arguments

namespace Reshape

namespace Text

variable {p r s before after : List Char} {pieces : List (List Char)}

/-! ## The first occurrence -/

theorem cut_eq_none_iff : cut p s = none ↔ ¬ p <:+: s := by
  induction s with
  | nil => cases p <;> simp [cut]
  | cons c rest ih =>
    rw [List.infix_cons_iff, cut]
    by_cases hp : p.isPrefixOf (c :: rest)
    · rw [if_pos hp]
      have hstart : p <+: c :: rest := List.isPrefixOf_iff_prefix.1 hp
      simp [hstart]
    · rw [if_neg hp, Option.map_eq_none_iff, ih]
      have hstart : ¬ p <+: c :: rest := fun h => hp (List.isPrefixOf_iff_prefix.2 h)
      simp [hstart]

theorem occursIn_iff : occursIn p s = true ↔ p <:+: s := by
  rw [occursIn, Option.isSome_iff_ne_none, ne_eq, cut_eq_none_iff, not_not]

/-- No occurrence of the pattern starts earlier than behind `before`. -/
def IsFirst (p before s : List Char) : Prop :=
  ∀ x y, s = x ++ p ++ y → before.length ≤ x.length

theorem isFirst_of_cut (h : cut p s = some (before, after)) : IsFirst p before s := by
  induction s generalizing before with
  | nil =>
    intro x y _
    cases p with
    | nil =>
      cases h
      exact Nat.zero_le _
    | cons => cases h
  | cons c rest ih =>
    intro x y hs
    rw [cut] at h
    split at h
    · cases h
      exact Nat.zero_le _
    · rename_i hp
      rw [Option.map_eq_some_iff] at h
      obtain ⟨⟨b, a⟩, hcut, heq⟩ := h
      cases heq
      cases x with
      | nil => exact absurd (List.isPrefixOf_iff_prefix.2 ⟨y, hs.symm⟩) hp
      | cons d x =>
        rw [List.cons_append, List.cons_append, List.cons.injEq] at hs
        exact Nat.succ_le_succ (ih hcut x y hs.2)

/-- A nonempty pattern is not found before its first occurrence. -/
theorem IsFirst.not_infix (hp : p ≠ []) (h : IsFirst p before (before ++ p ++ after)) :
    ¬ p <:+: before := by
  rintro ⟨x, y, rfl⟩
  -- an occurrence in what is before the first one would start too early
  have hle := h x (y ++ p ++ after) (by simp)
  have hpos := List.length_pos_iff.2 hp
  rw [List.length_append, List.length_append] at hle
  omega

/-! ## Pieces -/

/-- The pieces of a text: what is before the first occurrence of the pattern, and the pieces of
what is behind it. -/
inductive Pieces (p : List Char) : List Char → List (List Char) → Prop
  | last {s : List Char} (h : ¬ p <:+: s) : Pieces p s [s]
  | next {before after : List Char} {pieces : List (List Char)}
      (first : IsFirst p before (before ++ p ++ after)) (rest : Pieces p after pieces) :
      Pieces p (before ++ p ++ after) (before :: pieces)

/-- The text with `r` in place of the pattern wherever it is cut. -/
inductive Replaced (p r : List Char) : List Char → List Char → Prop
  | last {s : List Char} (h : ¬ p <:+: s) : Replaced p r s s
  | next {before after t : List Char} (first : IsFirst p before (before ++ p ++ after))
      (rest : Replaced p r after t) : Replaced p r (before ++ p ++ after) (before ++ r ++ t)

/-- A text need not be cut more often than it has characters. -/
theorem pieces_splitAtMost (hp : p ≠ []) {n : ℕ} (hn : s.length ≤ n) :
    Pieces p s (splitAtMost p n s) := by
  induction n generalizing s with
  | zero =>
    have hs : s = [] := List.length_eq_zero_iff.1 (Nat.le_zero.1 hn)
    subst hs
    exact .last fun h => hp (List.infix_nil.1 h)
  | succ n ih =>
    rw [splitAtMost]
    cases hcut : cut p s with
    | none => exact .last (cut_eq_none_iff.1 hcut)
    | some ba =>
      obtain ⟨before, after⟩ := ba
      have hfirst := isFirst_of_cut hcut
      have hs := eq_append_of_cut hcut
      have hpos := List.length_pos_iff.2 hp
      subst hs
      -- the pattern is not empty, so that what is behind it is shorter
      rw [List.length_append, List.length_append] at hn
      exact .next hfirst (ih (by omega))

theorem pieces_split (hp : p ≠ []) (s : List Char) : Pieces p s (split p s) :=
  pieces_splitAtMost hp le_rfl

theorem join_cons (sep s : List Char) (h : pieces ≠ []) :
    join sep (s :: pieces) = s ++ sep ++ join sep pieces := by
  obtain ⟨t, rest, rfl⟩ := List.exists_cons_of_ne_nil h
  rfl

namespace Pieces

theorem ne_nil (h : Pieces p s pieces) : pieces ≠ [] := by
  cases h <;> exact List.cons_ne_nil _ _

/-- The pattern is in none of the pieces. -/
theorem not_infix (hp : p ≠ []) (h : Pieces p s pieces) : ∀ t ∈ pieces, ¬ p <:+: t := by
  induction h with
  | last h => exact List.forall_mem_singleton.2 h
  | next first _ ih => exact List.forall_mem_cons.2 ⟨first.not_infix hp, ih⟩

theorem one_lt_length_iff (h : Pieces p s pieces) : 1 < pieces.length ↔ p <:+: s := by
  cases h with
  | last h => simp [h]
  | @next before after pieces _ rest =>
    have hpos := List.length_pos_iff.2 rest.ne_nil
    rw [List.length_cons]
    exact iff_of_true (by omega) ⟨before, after, rfl⟩

/-- **Joined with another text between them, the pieces are the text with the pattern
replaced.** -/
theorem replaced (h : Pieces p s pieces) (r : List Char) : Replaced p r s (join r pieces) := by
  induction h with
  | last h => exact .last h
  | next first rest ih =>
    rw [join_cons r _ rest.ne_nil]
    exact .next first ih

end Pieces

/-- The characters of a text, joined without anything between them. -/
theorem join_singletons (s : List Char) : join [] (s.map fun c => [c]) = s := by
  induction s with
  | nil => rfl
  | cons c rest ih =>
    cases rest with
    | nil => rfl
    | cons d rest =>
      rw [List.map_cons, join_cons [] [c] (by simp), ih]
      rfl

end Text

/-! ## The built-ins -/

namespace Expression.Library

open Text (Pieces Replaced)

/-- Joined again, the pieces are the text. -/
theorem join_piecesOf (p s : List Char) : Text.join p (piecesOf p s) = s := by
  rw [piecesOf]
  split
  · rename_i hp
    rw [List.isEmpty_iff.1 hp]
    exact Text.join_singletons s
  · exact Text.join_splitAtMost p s.length s

theorem apply_split (now s p : String) :
    apply .split now [some (.string s), some (.string p)] =
      .ok (some (.array ((piecesOf p.toList s.toList).map ofChars))) := rfl

theorem apply_split_limit (now s p : String) {k : Number} {n : ℕ}
    (h : limitArg? .split (some (.number k)) = .ok (some n)) :
    apply .split now [some (.string s), some (.string p), some (.number k)] =
      .ok (some (.array (((piecesOf p.toList s.toList).take n).map ofChars))) := by
  show (limitArg? .split (some (.number k)) >>= _).map some = _
  rw [h, List.map_take]
  rfl

theorem apply_join (now sep : String) (pieces : List (List Char)) :
    apply .join now [some (.array (pieces.map ofChars)), some (.string sep)] =
      .ok (some (ofChars (Text.join sep.toList pieces))) := by
  have hparts : joined .join sep.toList (.array (pieces.map ofChars)) =
      .ok (ofChars (Text.join sep.toList pieces)) := by
    simp only [joined, itemsOf]
    rw [mapM_map_eq_ok (f := ofChars) (k := fun t => t), List.map_id']
    · rfl
    · intro t
      exact congrArg Except.ok String.toList_ofList
  show (joined .join sep.toList (.array (pieces.map ofChars))).map some = _
  rw [hparts]
  rfl

theorem apply_contains (now s p : String) :
    apply .contains now [some (.string s), some (.string p)] =
      .ok (some (.bool (Text.occursIn p.toList s.toList))) := rfl

theorem apply_replace (now s r : String) {p : String} (hp : p.toList ≠ []) :
    apply .replace now [some (.string s), some (.string p), some (.string r)] =
      .ok (some (ofChars (Text.replaceAll p.toList r.toList s.toList))) := by
  have hempty : ¬ p.toList.isEmpty = true := by
    rw [List.isEmpty_iff]
    exact hp
  show (replaced .replace (.string s) (some (.string p)) (some (.string r)) none).map some = _
  rw [replaced]
  show Except.map some (if p.toList.isEmpty = true then _ else _) = _
  rw [if_neg hempty]
  rfl

/-- **The built-ins that search cohere.**  For all texts, what `$split` cuts is joined again by
`$join`.  For a pattern that is not empty the pieces are those between its occurrences, the
leftmost taken first, so that none has the pattern in it, `$replace` gives what `$join` makes of
them with the replacement, and `$contains` tells whether there is more than one.  A limit takes as
many pieces from the front as its whole part says, where a word can count the pieces, as it can
those of every text in memory; a limit that is no double does so for fewer than 2⁵³ pieces. -/
theorem pieces_are_between_occurrences (now s p : String) :
    apply .split now [some (.string s), some (.string p)] =
        .ok (some (.array ((piecesOf p.toList s.toList).map ofChars))) ∧
      (do
        let pieces ← apply .split now [some (.string s), some (.string p)]
        apply .join now [pieces, some (.string p)]) = .ok (some (.string s)) ∧
      (p ≠ "" →
        Pieces p.toList s.toList (piecesOf p.toList s.toList) ∧
        (∀ t ∈ piecesOf p.toList s.toList, ¬ p.toList <:+: t) ∧
        (∀ r : String, ∃ t : String, Replaced p.toList r.toList s.toList t.toList ∧
          apply .replace now [some (.string s), some (.string p), some (.string r)] =
            .ok (some (.string t)) ∧
          (do
            let pieces ← apply .split now [some (.string s), some (.string p)]
            apply .join now [pieces, some (.string r)]) = .ok (some (.string t))) ∧
        apply .contains now [some (.string s), some (.string p)] =
          .ok (some (.bool (decide (1 < (piecesOf p.toList s.toList).length))))) ∧
      ∀ k : Number, 0 ≤ k.value → (piecesOf p.toList s.toList).length ≤ Word.maxUInt64 →
        k.IsExactWithin (piecesOf p.toList s.toList).length →
        apply .split now [some (.string s), some (.string p), some (.number k)] =
          .ok (some (.array
            (((piecesOf p.toList s.toList).take ⌊k.value⌋.toNat).map ofChars))) := by
  refine ⟨apply_split now s p, ?_, ?_, ?_⟩
  · rw [apply_split]
    show apply .join now [some (.array _), some (.string p)] = _
    rw [apply_join, join_piecesOf, ofChars, String.ofList_toList]
  · intro hne
    have hp : p.toList ≠ [] := fun h => hne (String.toList_eq_nil_iff.1 h)
    have hsplit : piecesOf p.toList s.toList = Text.split p.toList s.toList := by
      rw [piecesOf, if_neg (by rwa [List.isEmpty_iff])]
    have hpieces := Text.pieces_split hp s.toList
    rw [hsplit]
    refine ⟨hpieces, hpieces.not_infix hp, ?_, ?_⟩
    · intro r
      refine ⟨String.ofList (Text.replaceAll p.toList r.toList s.toList), ?_,
        apply_replace now s r hp, ?_⟩
      · rw [String.toList_ofList]
        exact hpieces.replaced r.toList
      · rw [apply_split]
        show apply .join now [some (.array _), some (.string r)] = _
        rw [apply_join, hsplit]
        rfl
    · rw [apply_contains]
      congr 4
      rw [Bool.eq_iff_iff, decide_eq_true_iff, hpieces.one_lt_length_iff, Text.occursIn_iff]
  · intro k hk hlength hexact
    obtain ⟨n, hn, hagree⟩ := exists_limitArg .split hlength hexact hk
    rw [apply_split_limit now s p hn]
    have htake : (piecesOf p.toList s.toList).take n =
        (piecesOf p.toList s.toList).take ⌊k.value⌋.toNat := by
      have hfloor : 0 ≤ ⌊k.value⌋ := Int.floor_nonneg.2 hk
      -- a limit that is not the whole part itself is not smaller than the number of pieces
      rcases hagree with heq | ⟨hle, hle'⟩ | ⟨hle, hle'⟩
      · rw [← heq, Int.toNat_natCast]
      · rw [List.take_of_length_le (by omega), List.take_of_length_le (by omega)]
      · congr 1
        omega
    rw [htake]

/-- Of the two places where `aa` stands in `aaaba` the first is cut, and not the second, which
overlaps it. -/
theorem first_of_two_that_overlap :
    "aa" ≠ "" ∧ 0 ≤ Number.value (.whole 1 (by decide)) ∧
      piecesOf "aa".toList "aaaba".toList = [[], "aba".toList] ∧
      apply .contains "" [some (.string "aaaba"), some (.string "aa")] = .ok (some (.bool true)) ∧
      (∃ t : String, Replaced "aa".toList "b".toList "aaaba".toList t.toList ∧
        apply .replace "" [some (.string "aaaba"), some (.string "aa"), some (.string "b")] =
          .ok (some (.string t))) ∧
      apply .split "" [some (.string "aaaba"), some (.string "aa"),
        some (.number (.whole 1 (by decide)))] = .ok (some (.array [.string ""])) := by
  have hne : "aa" ≠ "" := by decide
  have hk : 0 ≤ Number.value (.whole 1 (by decide)) := by
    show (0 : ℚ) ≤ ((1 : ℤ) : ℚ)
    norm_num
  have hpieces : piecesOf "aa".toList "aaaba".toList = [[], "aba".toList] := by decide
  obtain ⟨-, -, hsearch, hlimit⟩ := pieces_are_between_occurrences "" "aaaba" "aa"
  obtain ⟨-, -, hreplace, hcontains⟩ := hsearch hne
  obtain ⟨t, ht, happly, -⟩ := hreplace "b"
  have hfirst := hlimit (.whole 1 (by decide)) hk (by rw [hpieces]; decide)
    (.inr (by rw [hpieces]; decide))
  have hfloor : ⌊Number.value (.whole 1 (by decide))⌋ = 1 := Int.floor_intCast 1
  rw [hpieces] at hcontains
  rw [hpieces, hfloor] at hfirst
  exact ⟨hne, hk, hpieces, hcontains, ⟨t, ht, happly⟩, hfirst⟩

end Expression.Library

end Reshape
