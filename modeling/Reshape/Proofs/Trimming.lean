/-
# Trimmed texts

A text is trimmed if it neither begins nor ends with a blank character (`IsTrim`).
Trimming makes every text so, and leaves such a text as it is: trimming a second time
changes nothing.
-/
import Mathlib.Data.List.DropRight
import Reshape.Text.Blank

namespace Reshape.Text

/-! ## Rows of characters -/

/-- The row neither begins nor ends with a blank character. -/
structure IsTrim (s : List Char) : Prop where
  head : ∀ c ∈ s.head?, isBlank c = false
  last : ∀ c ∈ s.getLast?, isBlank c = false

theorem isTrim_of_no_blanks {s : List Char} (h : ∀ c ∈ s, isBlank c = false) : IsTrim s where
  head := fun c hc => h c (List.mem_of_mem_head? hc)
  last := fun c hc => h c (List.mem_of_mem_getLast? hc)

theorem trimEnd_eq_rdropWhile (s : List Char) : trimEnd s = s.rdropWhile isBlank := rfl

theorem trimEnd_last (s : List Char) : ∀ c ∈ (trimEnd s).getLast?, isBlank c = false := by
  intro c hc
  rw [trimEnd_eq_rdropWhile] at hc
  obtain ⟨hne, rfl⟩ := List.mem_getLast?_eq_getLast hc
  exact Bool.eq_false_iff.2 (List.rdropWhile_last_not isBlank s hne)

/-- Trimming at the end leaves the beginning as it is, if it leaves something. -/
theorem trimEnd_head {s : List Char} (h : ∀ c ∈ s.head?, isBlank c = false) :
    ∀ c ∈ (trimEnd s).head?, isBlank c = false := by
  intro c hc
  obtain ⟨cut, hcut⟩ := List.rdropWhile_prefix isBlank s
  refine h c ?_
  rw [← hcut, List.head?_append, ← trimEnd_eq_rdropWhile, Option.mem_def.1 hc]
  rfl

theorem isTrim_trim (s : List Char) : IsTrim (trim s) where
  head := trimEnd_head (trimStart_head s)
  last := trimEnd_last (trimStart s)

/-- A trimmed row is left as it is. -/
theorem trim_of_isTrim {s : List Char} (h : IsTrim s) : trim s = s := by
  have hstart : trimStart s = s := by
    cases s with
    | nil => rfl
    | cons c rest => simp [trimStart, h.head c rfl]
  rw [trim, hstart, trimEnd_eq_rdropWhile, List.rdropWhile_eq_self_iff]
  intro hne
  rw [h.last _ (List.getLast?_eq_some_getLast hne)]
  exact Bool.false_ne_true

/-! ## Texts -/

theorem trimmed_of_isTrim {s : String} (h : IsTrim s.toList) : trimmed s = s := by
  rw [trimmed, trim_of_isTrim h, String.ofList_toList]

/-- Trimming a second time changes nothing. -/
theorem trimmed_trimmed (s : String) : trimmed (trimmed s) = trimmed s := by
  refine trimmed_of_isTrim ?_
  rw [trimmed, String.toList_ofList]
  exact isTrim_trim s.toList

theorem nonBlank?_eq_some_iff {s t : String} : nonBlank? s = some t ↔ trimmed s = t ∧ t ≠ "" := by
  simp only [nonBlank?, String.isEmpty_iff]
  constructor
  · intro h
    split_ifs at h with he
    cases h
    exact ⟨rfl, he⟩
  · rintro ⟨rfl, hne⟩
    rw [if_neg hne]

/-- A text with a character that is not blank has one left when it is trimmed. -/
theorem nonBlank?_of_isBlankText_eq_false {s : String} (h : isBlankText s = false) :
    nonBlank? s = some (trimmed s) := by
  refine nonBlank?_eq_some_iff.2 ⟨rfl, fun hempty => ?_⟩
  have hend : (trimStart s.toList).rdropWhile isBlank = [] := by
    rw [← trimEnd_eq_rdropWhile, ← trim, ← String.toList_ofList (l := trim s.toList)]
    exact String.toList_eq_nil_iff.2 hempty
  have hblank : ∀ c ∈ trimStart s.toList, isBlank c = true := List.rdropWhile_eq_nil_iff.1 hend
  have hstart : trimStart s.toList = [] := by
    refine List.eq_nil_iff_forall_not_mem.2 fun c hc => ?_
    obtain ⟨d, ds, hds⟩ := List.exists_cons_of_ne_nil (List.ne_nil_of_mem hc)
    have hhead : isBlank d = false := trimStart_head s.toList d (by rw [hds]; rfl)
    rw [hblank d (by rw [hds]; exact List.mem_cons_self)] at hhead
    cases hhead
  have hall : ∀ c ∈ s.toList, isBlank c = true := List.dropWhile_eq_nil_iff.1 hstart
  rw [isBlankText, List.all_eq_true.2 hall] at h
  cases h

/-- What is left of a text that was trimmed is left again. -/
theorem nonBlank?_of_nonBlank? {s t : String} (h : nonBlank? s = some t) :
    nonBlank? t = some t := by
  obtain ⟨rfl, hne⟩ := nonBlank?_eq_some_iff.1 h
  exact nonBlank?_eq_some_iff.2 ⟨trimmed_trimmed s, hne⟩

/-- A text without blank characters is left as it is, if it has a character. -/
theorem nonBlank?_of_no_blanks {s : String} (hne : s ≠ "")
    (h : ∀ c ∈ s.toList, isBlank c = false) : nonBlank? s = some s :=
  nonBlank?_eq_some_iff.2 ⟨trimmed_of_isTrim (isTrim_of_no_blanks h), hne⟩

end Reshape.Text
