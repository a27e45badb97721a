/-
# Documents that are read are well formed

Whatever text is read, no object of the document has two members of one name: a member that
is read twice is set in its place.

A computation that may fail is known by what it yields if it does not (`Ensures`).  The
readers of rows take the reader of the documents inside as an argument, so they yield what is
well formed if that one does.
-/
import Reshape.Json.Reader
import Reshape.Proofs.Documents

namespace Reshape

/-! ## What a computation yields -/

/-- If the computation succeeds, this holds of what it yields. -/
def Ensures {ε α : Type} (x : Except ε α) (P : α → Prop) : Prop := ∀ v, x = .ok v → P v

namespace Ensures

variable {ε α β : Type} {P : α → Prop} {Q : β → Prop}

theorem ok {v : α} (h : P v) : Ensures (.ok v : Except ε α) P := by
  intro w hw
  cases hw
  exact h

theorem error (e : ε) : Ensures (.error e) P := by
  intro w hw
  cases hw

theorem any (x : Except ε α) : Ensures x fun _ => True := fun _ _ => trivial

theorem bind {x : Except ε α} {f : α → Except ε β} (hx : Ensures x P)
    (hf : ∀ v, P v → Ensures (f v) Q) : Ensures (x >>= f) Q := by
  cases x with
  | error e => exact error e
  | ok v => exact hf v (hx v rfl)

/-- A first step about which nothing need be known. -/
theorem step {x : Except ε α} {f : α → Except ε β} (hf : ∀ v, Ensures (f v) Q) :
    Ensures (x >>= f) Q :=
  (any x).bind fun v _ => hf v

theorem map {x : Except ε α} {f : α → β} (hx : Ensures x P) (hf : ∀ v, P v → Q (f v)) :
    Ensures (x.map f) Q := by
  cases x with
  | error e => exact error e
  | ok v => exact ok (hf v (hx v rfl))

end Ensures

namespace Json

namespace Reader

variable {item : Cursor → Except Fault (Json × Cursor)}

/-! ## Scalars -/

theorem ensures_word {v : Json} (hv : v.WellFormed) (expected : List Char) (c : Cursor) :
    Ensures (word v expected c) fun r => r.1.WellFormed := by
  induction expected generalizing c with
  | nil => exact .ok hv
  | cons x more ih =>
    rw [word]
    split
    · exact .error _
    · split
      · exact ih c.next
      · exact .error _

theorem ensures_number (negative : Bool) (c : Cursor) :
    Ensures (number negative c) fun r => r.1.WellFormed := by
  refine .step fun digits => ?_
  refine .step fun fraction => ?_
  refine .step fun exponent => ?_
  simp only
  split
  · exact .ok trivial
  · exact .error _

/-! ## Rows -/

theorem ensures_itemsFrom (hitem : ∀ c, Ensures (item c) fun r => r.1.WellFormed)
    (steps : Nat) {acc : List Json} (hacc : ∀ v ∈ acc, v.WellFormed) (c : Cursor) :
    Ensures (itemsFrom item steps acc c) fun r => ∀ v ∈ r.1, v.WellFormed := by
  induction steps generalizing acc c with
  | zero => exact .error _
  | succ steps ih =>
    have hnext : ∀ c, Ensures (item c >>= fun r => itemsFrom item steps (r.1 :: acc) r.2)
        fun r => ∀ v ∈ r.1, v.WellFormed :=
      fun c => (hitem c).bind fun r hr => ih (List.forall_mem_cons.2 ⟨hr, hacc⟩) r.2
    rw [itemsFrom]
    simp only
    split
    · exact .error _
    split
    · exact .ok fun v hv => hacc v (List.mem_reverse.1 hv)
    split
    · exact hnext _
    split
    · split
      · exact .error _
      split
      · exact .error _
      · exact hnext _
    · exact .error _

theorem ensures_member (hitem : ∀ c, Ensures (item c) fun r => r.1.WellFormed) (c : Cursor) :
    Ensures (member item c) fun r => r.1.2.WellFormed := by
  refine .step fun r => ?_
  simp only
  split
  · exact .error _
  split
  · exact (hitem _).bind fun r hr => .ok hr
  · exact .error _

/-- Members that are read are set one after the other. -/
theorem ensures_membersFrom (hitem : ∀ c, Ensures (item c) fun r => r.1.WellFormed)
    (steps : Nat) (first : Bool) {acc : Members} (hacc : (object acc).WellFormed) (c : Cursor) :
    Ensures (membersFrom item steps first acc c) fun r => (object r.1).WellFormed := by
  induction steps generalizing first acc c with
  | zero => exact .error _
  | succ steps ih =>
    have hnext : ∀ c, Ensures
        (member item c >>= fun r => membersFrom item steps false (acc.set r.1.1 r.1.2) r.2)
        fun r => (object r.1).WellFormed :=
      fun c => (ensures_member hitem c).bind fun r hr => ih false (hacc.set hr) r.2
    rw [membersFrom]
    simp only
    split
    · exact .error _
    split
    · exact .ok hacc
    split
    · split
      · exact hnext _
      · exact .error _
    split
    · split
      · exact .error _
      split
      · exact hnext _
      split
      · exact .error _
      · exact .error _
    · exact .error _

/-! ## Documents -/

theorem ensures_value (levels : Nat) (c : Cursor) :
    Ensures (value levels c) fun r => r.1.WellFormed := by
  rw [value.eq_def]
  simp only
  split
  · exact .error _
  split_ifs
  · exact ensures_word isScalar_null.wellFormed _ _
  · exact ensures_word (isScalar_bool true).wellFormed _ _
  · exact ensures_word (isScalar_bool false).wellFormed _ _
  · exact ensures_number _ _
  · exact ensures_number _ _
  · exact .step fun r => .ok trivial
  · cases levels with
    | zero => exact .error _
    | succ levels =>
      refine (ensures_itemsFrom (ensures_value levels) _ (List.forall_mem_nil _) _).bind ?_
      exact fun r hr => .ok (wellFormed_array.2 hr)
  · cases levels with
    | zero => exact .error _
    | succ levels =>
      refine (ensures_membersFrom (ensures_value levels) _ true .empty_object _).bind ?_
      exact fun r hr => .ok hr
  · exact .error _

end Reader

/-- **A document that is read is well formed.** -/
theorem wellFormed_of_read {s : List Char} {v : Json} (h : read s = .ok v) : v.WellFormed := by
  have hread : Ensures (read s) WellFormed := by
    refine (Reader.ensures_value _ _).bind fun r hr => ?_
    simp only
    split
    · exact .ok hr
    · exact .error _
  exact hread v h

end Json

end Reshape
