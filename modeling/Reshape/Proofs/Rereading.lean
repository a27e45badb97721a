/-
# Documents written are documents read

The compact text of a document is read as that document, as long as it is not nested deeper
than the reader goes; a deeper one is refused for its depth and for nothing else
(`read_write`, `read_write_deep`).

The induction is on the document.  Its statement is about the text followed by anything that
does not go on with a number, and about every number of levels that are left: the items of an
array are read with one level less, each with the rest of the array behind it.
-/
import Reshape.Proofs.Documents
import Reshape.Proofs.Numerals

namespace Reshape

/-- The number is read back from its text. -/
def Number.IsReadBack (n : Number) : Prop := Json.read (Json.writeNumber n) = .ok (.number n)

namespace Json

open Text (Ends isDigit)

/-! ## First characters -/

/-- A character that a document may start with: not a space, no closing bracket, and nothing
that makes another symbol of a colon before it. -/
def Starts (c : Char) : Prop := Cursor.isSpace c = false ∧ c ≠ ']' ∧ c ≠ '\x7d' ∧ c ≠ '='

instance (c : Char) : Decidable (Starts c) := by unfold Starts; infer_instance

/-- A digit is a character that a document may start with. -/
theorem starts_of_isDigit {c : Char} (h : isDigit c = true) : Starts c := by
  have hlo : '0' ≤ c ∧ c ≤ '9' := by simpa [isDigit] using h
  refine ⟨?_, ?_⟩
  · by_contra hspace
    simp only [Cursor.isSpace, Bool.not_eq_false, Bool.or_eq_true, beq_iff_eq] at hspace
    obtain ((rfl | rfl) | rfl) | rfl := hspace <;> exact absurd hlo (by decide)
  · refine ⟨?_, ?_, ?_⟩ <;>
    · rintro rfl
      exact absurd hlo (by decide)

/-- A number starts with its sign or with a digit. -/
theorem exists_cons_writeNumber (n : Number) :
    ∃ c s, writeNumber n = c :: s ∧ (c = '-' ∨ isDigit c = true) := by
  obtain ⟨negative, w, hw, hwrite⟩ := Reader.exists_written n
  rw [hwrite]
  cases negative with
  | true => exact ⟨'-', _, rfl, Or.inl rfl⟩
  | false =>
    obtain ⟨c, s, hs, hc⟩ := hw.exists_cons
    exact ⟨c, s, hs, Or.inr hc⟩

/-- The text of a document is not empty, and starts with a character that one may start with. -/
theorem exists_cons_write (v : Json) : ∃ c s, write v = c :: s ∧ Starts c := by
  cases v with
  | null => exact ⟨_, _, rfl, by decide⟩
  | bool b => cases b <;> exact ⟨_, _, rfl, by decide⟩
  | number n =>
    obtain ⟨c, s, hs, hc⟩ := exists_cons_writeNumber n
    refine ⟨c, s, by rw [write, hs], ?_⟩
    obtain rfl | hdigit := hc
    · decide
    · exact starts_of_isDigit hdigit
  | string s => exact ⟨_, _, rfl, by decide⟩
  | array items => cases items <;> exact ⟨_, _, rfl, by decide⟩
  | object members =>
    cases members with
    | nil => exact ⟨_, _, rfl, by decide⟩
    | cons m rest => exact ⟨_, _, rfl, by decide⟩

namespace Reader

variable {item : Cursor → Except Fault (Json × Cursor)} {rest : List Char}

/-! ## Items -/

/-- The reader takes the text of the document for the document. -/
def Reads (item : Cursor → Except Fault (Json × Cursor)) (v : Json) : Prop :=
  ∀ s o, NumberEnds s → Yields (item ⟨write v ++ s, o⟩) v s

/-- The reader refuses the text of the document for its depth. -/
def Refuses (item : Cursor → Except Fault (Json × Cursor)) (v : Json) : Prop :=
  ∀ s o, NumberEnds s → Breaks (item ⟨write v ++ s, o⟩) .nestedTooDeep

/-- The first item of an array is read without a comma before it. -/
theorem itemsFrom_first {c : Char} (hc : Starts c) (steps : Nat) (s : List Char) (o : Nat) :
    itemsFrom item (steps + 1) [] ⟨c :: s, o⟩ =
      item ⟨c :: s, o⟩ >>= fun x => itemsFrom item steps [x.1] x.2 := by
  have hspaces : Cursor.skipSpaces ⟨c :: s, o⟩ = ⟨c :: s, o⟩ :=
    skipSpaces_eq (fun x hx => by cases hx; exact hc.1) o
  rw [itemsFrom, hspaces]
  simp [hc.2.1]

/-- Behind a comma the next item is read. -/
theorem itemsFrom_comma {c : Char} (hc : Starts c) (steps : Nat) {acc : List Json}
    (hacc : acc ≠ []) (s : List Char) (o : Nat) :
    itemsFrom item (steps + 1) acc ⟨',' :: c :: s, o⟩ =
      item ⟨c :: s, o + 1⟩ >>= fun x => itemsFrom item steps (x.1 :: acc) x.2 := by
  have hcomma : Cursor.skipSpaces ⟨',' :: c :: s, o⟩ = ⟨',' :: c :: s, o⟩ :=
    skipSpaces_eq (fun x hx => by cases hx; rfl) o
  have hspaces : Cursor.skipSpaces ⟨c :: s, o + 1⟩ = ⟨c :: s, o + 1⟩ :=
    skipSpaces_eq (fun x hx => by cases hx; exact hc.1) (o + 1)
  have hnext : Cursor.next ⟨',' :: c :: s, o⟩ = ⟨c :: s, o + 1⟩ := rfl
  rw [itemsFrom, hcomma]
  simp [hacc, hnext, hspaces, hc.2.1]

/-- At the closing bracket the items are complete; they were gathered in reverse. -/
theorem itemsFrom_end (steps : Nat) (acc : List Json) (s : List Char) (o : Nat) :
    itemsFrom item (steps + 1) acc ⟨']' :: s, o⟩ = .ok (acc.reverse, ⟨s, o + 1⟩) := by
  have hspaces : Cursor.skipSpaces ⟨']' :: s, o⟩ = ⟨']' :: s, o⟩ :=
    skipSpaces_eq (fun x hx => by cases hx; rfl) o
  rw [itemsFrom, hspaces]
  rfl

/-- Behind an item comes a comma or a bracket, neither of which goes on with a number. -/
theorem numberEnds_writeItems (items : List Json) (rest : List Char) :
    NumberEnds (writeItems items ++ rest) := by
  cases items <;> exact fun c hc => by cases hc; rfl

/-- If every item is read where it is written, all items are, and behind those gathered before. -/
theorem itemsFrom_yields {items acc : List Json} {steps : Nat}
    (hitems : ∀ v ∈ items, Reads item v) (hacc : acc ≠ []) (hsteps : items.length < steps)
    (o : Nat) :
    Yields (itemsFrom item steps acc ⟨writeItems items ++ rest, o⟩) (acc.reverse ++ items)
      rest := by
  induction items generalizing acc steps o with
  | nil =>
    obtain ⟨steps, rfl⟩ : ∃ k, steps = k + 1 := ⟨steps - 1, by omega⟩
    refine ⟨o + 1, ?_⟩
    rw [writeItems, List.append_nil]
    exact itemsFrom_end steps acc rest o
  | cons v items ih =>
    obtain ⟨steps, rfl⟩ : ∃ k, steps = k + 1 := ⟨steps - 1, by omega⟩
    obtain ⟨c, s, hs, hc⟩ := exists_cons_write v
    have hv := hitems v List.mem_cons_self (writeItems items ++ rest) (o + 1)
      (numberEnds_writeItems items _)
    rw [writeItems, hs, List.cons_append, List.cons_append, List.cons_append,
      itemsFrom_comma hc steps hacc]
    rw [hs, List.cons_append] at hv
    rw [List.append_assoc]
    refine hv.bind fun o => ?_
    rw [show acc.reverse ++ v :: items = (v :: acc).reverse ++ items by simp]
    exact ih (fun w hw => hitems w (List.mem_cons_of_mem v hw)) (by simp)
      (by simpa using hsteps) o

/-- If one item is too deep, the array is refused where the first such item is met. -/
theorem itemsFrom_breaks {items acc : List Json} {steps : Nat}
    (hitems : ∀ v ∈ items, Reads item v ∨ Refuses item v) (hbad : ∃ v ∈ items, Refuses item v)
    (hacc : acc ≠ []) (hsteps : items.length < steps) (o : Nat) :
    Breaks (itemsFrom item steps acc ⟨writeItems items ++ rest, o⟩) .nestedTooDeep := by
  induction items generalizing acc steps o with
  | nil => exact absurd hbad (by simp)
  | cons v items ih =>
    obtain ⟨steps, rfl⟩ : ∃ k, steps = k + 1 := ⟨steps - 1, by omega⟩
    obtain ⟨c, s, hs, hc⟩ := exists_cons_write v
    have hends := numberEnds_writeItems items rest
    rw [writeItems, List.cons_append, List.append_assoc, hs, List.cons_append,
      itemsFrom_comma hc steps hacc, ← List.cons_append, ← hs]
    by_cases hv : Refuses item v
    · exact (hv _ _ hends).bind
    · have hread : Reads item v := (hitems v List.mem_cons_self).resolve_right hv
      refine (hread _ _ hends).bind_breaks fun o => ?_
      obtain ⟨w, hw, hwbad⟩ := hbad
      obtain rfl | hw := List.mem_cons.1 hw
      · exact absurd hwbad hv
      · exact ih (fun w hw => hitems w (List.mem_cons_of_mem v hw)) ⟨w, hw, hwbad⟩ (by simp)
          (by simpa using hsteps) o

/-! ## Members -/

/-- A member is read as its name and its value. -/
theorem member_eq (item : Cursor → Except Fault (Json × Cursor)) (k : String) (v : Json)
    (s : List Char) (o : Nat) :
    ∃ o', member item ⟨writeString k ++ ':' :: (write v ++ s), o⟩ =
      item ⟨write v ++ s, o'⟩ >>= fun x => pure ((k, x.1), x.2) := by
  obtain ⟨o', ho'⟩ := stringBody_yields k (':' :: (write v ++ s)) (o + 1)
  have hspaces : Cursor.skipSpaces ⟨':' :: (write v ++ s), o'⟩ = ⟨':' :: (write v ++ s), o'⟩ :=
    skipSpaces_eq (fun x hx => by cases hx; rfl) o'
  have hnext : Cursor.next ⟨writeString k ++ ':' :: (write v ++ s), o⟩ =
      ⟨k.toList.flatMap escaped ++ '"' :: (':' :: (write v ++ s)), o + 1⟩ := by
    rw [writeString, List.cons_append, List.append_assoc]
    rfl
  refine ⟨o' + 1, ?_⟩
  -- the name ends at its quote, and the colon stands right behind it
  simp only [member, hnext, ho', bind, Except.bind, hspaces]
  rfl

/-- The readers of the members take up after a member that was read. -/
theorem membersFrom_first (item : Cursor → Except Fault (Json × Cursor)) (k : String) (v : Json)
    (steps : Nat) (s : List Char) (o : Nat) :
    ∃ o', membersFrom item (steps + 1) true [] ⟨writeString k ++ ':' :: (write v ++ s), o⟩ =
      item ⟨write v ++ s, o'⟩ >>= fun x => membersFrom item steps false [(k, x.1)] x.2 := by
  obtain ⟨o', ho'⟩ := member_eq item k v s o
  have hspaces : Cursor.skipSpaces ⟨writeString k ++ ':' :: (write v ++ s), o⟩ =
      ⟨writeString k ++ ':' :: (write v ++ s), o⟩ :=
    skipSpaces_eq (fun x hx => by cases hx; rfl) o
  refine ⟨o', ?_⟩
  rw [membersFrom, hspaces]
  show (member item ⟨writeString k ++ ':' :: (write v ++ s), o⟩ >>= _) = _
  rw [ho', bind_assoc]
  rfl

/-- Behind a comma the next member is read and set. -/
theorem membersFrom_comma (item : Cursor → Except Fault (Json × Cursor)) (k : String) (v : Json)
    (steps : Nat) (acc : Members) (s : List Char) (o : Nat) :
    ∃ o', membersFrom item (steps + 1) false acc
        ⟨',' :: (writeString k ++ ':' :: (write v ++ s)), o⟩ =
      item ⟨write v ++ s, o'⟩ >>= fun x => membersFrom item steps false (acc.set k x.1) x.2 := by
  obtain ⟨o', ho'⟩ := member_eq item k v s (o + 1)
  have hcomma : Cursor.skipSpaces ⟨',' :: (writeString k ++ ':' :: (write v ++ s)), o⟩ =
      ⟨',' :: (writeString k ++ ':' :: (write v ++ s)), o⟩ :=
    skipSpaces_eq (fun x hx => by cases hx; rfl) o
  have hspaces : Cursor.skipSpaces ⟨writeString k ++ ':' :: (write v ++ s), o + 1⟩ =
      ⟨writeString k ++ ':' :: (write v ++ s), o + 1⟩ :=
    skipSpaces_eq (fun x hx => by cases hx; rfl) (o + 1)
  have hnext : Cursor.next ⟨',' :: (writeString k ++ ':' :: (write v ++ s)), o⟩ =
      ⟨writeString k ++ ':' :: (write v ++ s), o + 1⟩ := rfl
  refine ⟨o', ?_⟩
  rw [membersFrom, hcomma]
  simp only [hnext, hspaces]
  show (member item ⟨writeString k ++ ':' :: (write v ++ s), o + 1⟩ >>= _) = _
  rw [ho', bind_assoc]
  rfl

/-- At the closing brace the members are complete. -/
theorem membersFrom_end (steps : Nat) (first : Bool) (acc : Members) (s : List Char) (o : Nat) :
    membersFrom item (steps + 1) first acc ⟨'\x7d' :: s, o⟩ = .ok (acc, ⟨s, o + 1⟩) := by
  have hspaces : Cursor.skipSpaces ⟨'\x7d' :: s, o⟩ = ⟨'\x7d' :: s, o⟩ :=
    skipSpaces_eq (fun x hx => by cases hx; rfl) o
  rw [membersFrom, hspaces]
  rfl

/-- Behind a member comes a comma or a brace, neither of which goes on with a number. -/
theorem numberEnds_writeMembers (members : Members) (rest : List Char) :
    NumberEnds (writeMembers members ++ rest) := by
  cases members <;> exact fun c hc => by cases hc; rfl

/-- If every value is read where it is written, all members are.  Their names are distinct, so
each of them is put at the end. -/
theorem membersFrom_yields {members acc : Members} {steps : Nat}
    (hmembers : ∀ m ∈ members, Reads item m.2)
    (hnames : (Members.names (acc ++ members)).Nodup) (hsteps : members.length < steps) (o : Nat) :
    Yields (membersFrom item steps false acc ⟨writeMembers members ++ rest, o⟩) (acc ++ members)
      rest := by
  induction members generalizing acc steps o with
  | nil =>
    obtain ⟨steps, rfl⟩ : ∃ k, steps = k + 1 := ⟨steps - 1, by omega⟩
    refine ⟨o + 1, ?_⟩
    rw [writeMembers, List.append_nil]
    exact membersFrom_end steps false acc rest o
  | cons m members ih =>
    obtain ⟨k, v⟩ := m
    obtain ⟨steps, rfl⟩ : ∃ k, steps = k + 1 := ⟨steps - 1, by omega⟩
    have hk : k ∉ Members.names acc := by
      rw [Members.names, List.map_append, List.nodup_append] at hnames
      exact fun hmem => hnames.2.2 k hmem k (by simp) rfl
    obtain ⟨o', ho'⟩ := membersFrom_comma item k v steps acc
      (writeMembers members ++ rest) o
    have hv := hmembers (k, v) List.mem_cons_self (writeMembers members ++ rest) o'
      (numberEnds_writeMembers members _)
    have htext : writeMembers ((k, v) :: members) ++ rest =
        ',' :: (writeString k ++ ':' :: (write v ++ (writeMembers members ++ rest))) := by
      simp [writeMembers]
    rw [htext, ho']
    refine hv.bind fun o => ?_
    rw [Members.set_of_not_mem hk, show acc ++ (k, v) :: members = acc ++ [(k, v)] ++ members by simp]
    exact ih (fun m hm => hmembers m (List.mem_cons_of_mem _ hm)) (by simpa using hnames)
      (by simpa using hsteps) o

/-- If one value is too deep, the object is refused where the first such value is met. -/
theorem membersFrom_breaks {members acc : Members} {steps : Nat}
    (hmembers : ∀ m ∈ members, Reads item m.2 ∨ Refuses item m.2)
    (hbad : ∃ m ∈ members, Refuses item m.2) (hsteps : members.length < steps) (o : Nat) :
    Breaks (membersFrom item steps false acc ⟨writeMembers members ++ rest, o⟩)
      .nestedTooDeep := by
  induction members generalizing acc steps o with
  | nil => exact absurd hbad (by simp)
  | cons m members ih =>
    obtain ⟨k, v⟩ := m
    obtain ⟨steps, rfl⟩ : ∃ k, steps = k + 1 := ⟨steps - 1, by omega⟩
    have hends := numberEnds_writeMembers members rest
    obtain ⟨o', ho'⟩ := membersFrom_comma item k v steps acc
      (writeMembers members ++ rest) o
    have htext : writeMembers ((k, v) :: members) ++ rest =
        ',' :: (writeString k ++ ':' :: (write v ++ (writeMembers members ++ rest))) := by
      simp [writeMembers]
    rw [htext, ho']
    by_cases hv : Refuses item v
    · exact (hv _ _ hends).bind
    · have hread : Reads item v := (hmembers (k, v) List.mem_cons_self).resolve_right hv
      refine (hread _ _ hends).bind_breaks fun o => ?_
      obtain ⟨m, hm, hmbad⟩ := hbad
      obtain rfl | hm := List.mem_cons.1 hm
      · exact absurd hmbad hv
      · exact ih (fun m hm => hmembers m (List.mem_cons_of_mem _ hm)) ⟨m, hm, hmbad⟩
          (by simpa using hsteps) o

/-! ## One document -/

variable {levels : Nat} {c : Char} {s : List Char} {o : Nat}

/-- No spaces are skipped before a document that is written. -/
theorem skipSpaces_cons (hc : Starts c) : Cursor.skipSpaces ⟨c :: s, o⟩ = ⟨c :: s, o⟩ :=
  skipSpaces_eq (fun x hx => by cases hx; exact hc.1) o

/-- A minus begins a negative number. -/
theorem value_minus : value levels ⟨'-' :: s, o⟩ = number true ⟨s, o + 1⟩ := by
  rw [value.eq_def, skipSpaces_cons (by decide)]
  rfl

/-- A digit begins a number. -/
theorem value_digit (hc : isDigit c = true) :
    value levels ⟨c :: s, o⟩ = number false ⟨c :: s, o⟩ := by
  have hne : c ≠ 'n' ∧ c ≠ 't' ∧ c ≠ 'f' ∧ c ≠ '-' := by
    refine ⟨?_, ?_, ?_, ?_⟩ <;> rintro rfl <;> exact absurd hc (by decide)
  rw [value.eq_def, skipSpaces_cons (starts_of_isDigit hc)]
  simp [hne, hc]

/-- A quote begins a string. -/
theorem value_quote :
    value levels ⟨'"' :: s, o⟩ =
      stringBody ⟨s, o + 1⟩ >>= fun x => pure (.string x.1, x.2) := by
  rw [value.eq_def, skipSpaces_cons (by decide)]
  rfl

/-- A bracket begins an array, whose items have one level less. -/
theorem value_bracket :
    value (levels + 1) ⟨'[' :: s, o⟩ =
      itemsFrom (value levels) (s.length + 2) [] ⟨s, o + 1⟩ >>= fun x =>
        pure (.array x.1, x.2) := by
  rw [value.eq_def, skipSpaces_cons (by decide)]
  rfl

/-- A brace begins an object, whose values have one level less. -/
theorem value_brace :
    value (levels + 1) ⟨'\x7b' :: s, o⟩ =
      membersFrom (value levels) (s.length + 2) true [] ⟨s, o + 1⟩ >>= fun x =>
        pure (.object x.1, x.2) := by
  rw [value.eq_def, skipSpaces_cons (by decide)]
  rfl

/-- Without a level left every array and every object is refused. -/
theorem value_zero_breaks (hc : c = '[' ∨ c = '\x7b') :
    Breaks (value 0 ⟨c :: s, o⟩) .nestedTooDeep := by
  obtain rfl | rfl := hc
  · refine ⟨o + 1, ?_⟩
    rw [value.eq_def, skipSpaces_cons (by decide)]
    rfl
  · refine ⟨o + 1, ?_⟩
    rw [value.eq_def, skipSpaces_cons (by decide)]
    rfl

theorem reads_null : Reads (value levels) .null := by
  intro s o _
  rw [value.eq_def, show write .null ++ s = 'n' :: 'u' :: 'l' :: 'l' :: s from rfl,
    skipSpaces_cons (by decide)]
  exact word_yields .null ['u', 'l', 'l'] s _

theorem reads_bool (b : Bool) : Reads (value levels) (.bool b) := by
  intro s o _
  cases b with
  | true =>
    rw [value.eq_def, show write (.bool true) ++ s = 't' :: 'r' :: 'u' :: 'e' :: s from rfl,
      skipSpaces_cons (by decide)]
    exact word_yields (.bool true) ['r', 'u', 'e'] s _
  | false =>
    rw [value.eq_def, show write (.bool false) ++ s = 'f' :: 'a' :: 'l' :: 's' :: 'e' :: s from rfl,
      skipSpaces_cons (by decide)]
    exact word_yields (.bool false) ['a', 'l', 's', 'e'] s _

/-- A numeral with its sign is read as a number. -/
theorem value_numeral {w : Written} (hw : w.Proper) (negative : Bool) (s : List Char) (o : Nat) :
    value levels ⟨(if negative then ['-'] else []) ++ w.chars ++ s, o⟩ =
      number negative ⟨w.chars ++ s, if negative then o + 1 else o⟩ := by
  cases negative with
  | true => exact value_minus
  | false =>
    obtain ⟨c, cs, hcs, hc⟩ := hw.exists_cons
    rw [hcs]
    exact value_digit hc

/-- **A number is read back exactly if its numeral denotes it.** -/
theorem isReadBack_iff {n : Number} {w : Written} {negative : Bool} (hw : w.Proper)
    (hwrite : writeNumber n = (if negative then ['-'] else []) ++ w.chars) :
    n.IsReadBack ↔ w.numeral.number? negative = some n := by
  have hends : NumberEnds [] := fun c hc => by cases hc
  -- the text of the number is taken whole or refused
  generalize hstart : (if negative then 0 + 1 else 0 : Nat) = o
  have hvalue : value maxLevels ⟨writeNumber n ++ [], 0⟩ = number negative ⟨w.chars ++ [], o⟩ := by
    rw [hwrite, ← hstart]
    exact value_numeral hw negative [] 0
  rw [List.append_nil] at hvalue
  rw [Number.IsReadBack, read, Cursor.start, hvalue]
  cases hn : w.numeral.number? negative with
  | some m =>
    obtain ⟨o', ho⟩ := number_yields hw hn hends o
    have hspaces : Cursor.skipSpaces ⟨[], o'⟩ = ⟨[], o'⟩ :=
      skipSpaces_eq (fun c hc => by cases hc) o'
    rw [ho]
    simp [bind, Except.bind, hspaces, pure, Except.pure]
  | none =>
    obtain ⟨o', ho⟩ := number_breaks hw hn hends o
    rw [ho]
    simp [bind, Except.bind]

/-- A number that is read back is read wherever it stands. -/
theorem reads_number {n : Number} (h : n.IsReadBack) : Reads (value levels) (.number n) := by
  intro s o hs
  obtain ⟨negative, w, hw, hwrite⟩ := exists_written n
  rw [write, hwrite, value_numeral hw]
  exact number_yields hw ((isReadBack_iff hw hwrite).1 h) hs _

/-- A string is read up to its closing quote. -/
theorem reads_string (t : String) : Reads (value levels) (.string t) := by
  intro s o _
  have htext : write (.string t) ++ s = '"' :: (t.toList.flatMap escaped ++ '"' :: s) := by
    simp [write, writeString]
  rw [htext, value_quote]
  exact (stringBody_yields t s (o + 1)).bind fun o => ⟨o, rfl⟩

/-- There are no more items than characters, so the reader has steps enough for them. -/
theorem length_le_writeItems (items : List Json) : items.length ≤ (writeItems items).length := by
  induction items with
  | nil => exact Nat.zero_le _
  | cons v items ih =>
    rw [writeItems, List.length_cons, List.length_cons, List.length_append]
    omega

/-- There are no more members than characters either. -/
theorem length_le_writeMembers (members : Members) :
    members.length ≤ (writeMembers members).length := by
  induction members with
  | nil => exact Nat.zero_le _
  | cons m members ih =>
    rw [writeMembers, List.length_cons, List.length_cons, List.length_append, List.length_cons,
      List.length_append]
    omega

/-- An array is read if its items are read with one level less. -/
theorem reads_array {items : List Json} (hitems : ∀ v ∈ items, Reads (value levels) v) :
    Reads (value (levels + 1)) (.array items) := by
  intro s o _
  cases items with
  | nil =>
    show Yields (value (levels + 1) ⟨'[' :: ']' :: s, o⟩) _ s
    rw [value_bracket]
    exact ⟨o + 1 + 1, by rw [itemsFrom_end]; rfl⟩
  | cons v items =>
    obtain ⟨c, t, ht, hc⟩ := exists_cons_write v
    have hlength := length_le_writeItems items
    have hv := hitems v List.mem_cons_self (writeItems items ++ s) (o + 1)
      (numberEnds_writeItems items _)
    have htext : write (.array (v :: items)) ++ s = '[' :: c :: (t ++ (writeItems items ++ s)) := by
      simp [write, ht]
    rw [ht, List.cons_append] at hv
    rw [htext, value_bracket, itemsFrom_first hc, bind_assoc]
    refine hv.bind fun o => ?_
    refine (itemsFrom_yields (fun w hw => hitems w (List.mem_cons_of_mem v hw))
      (List.cons_ne_nil v []) ?_ o).bind fun o => ⟨o, rfl⟩
    simp
    omega

/-- An object is read if its values are, and its names are distinct. -/
theorem reads_object {members : Members} (hmembers : ∀ m ∈ members, Reads (value levels) m.2)
    (hnames : (Members.names members).Nodup) :
    Reads (value (levels + 1)) (.object members) := by
  intro s o _
  cases members with
  | nil =>
    show Yields (value (levels + 1) ⟨'\x7b' :: '\x7d' :: s, o⟩) _ s
    rw [value_brace]
    exact ⟨o + 1 + 1, by rw [membersFrom_end]; rfl⟩
  | cons m members =>
    obtain ⟨k, v⟩ := m
    have hlength := length_le_writeMembers members
    have htext : write (.object ((k, v) :: members)) ++ s =
        '\x7b' :: (writeString k ++ ':' :: (write v ++ (writeMembers members ++ s))) := by
      simp [write]
    rw [htext, value_brace]
    obtain ⟨o', ho'⟩ := membersFrom_first (value levels) k v
      ((writeString k ++ ':' :: (write v ++ (writeMembers members ++ s))).length + 1)
      (writeMembers members ++ s) (o + 1)
    rw [ho', bind_assoc]
    refine (hmembers (k, v) List.mem_cons_self _ o' (numberEnds_writeMembers members _)).bind
      fun o => ?_
    refine (membersFrom_yields (fun m hm => hmembers m (List.mem_cons_of_mem _ hm))
      (by simpa using hnames) ?_ o).bind fun o => ⟨o, rfl⟩
    simp
    omega

/-- An array with an item that is too deep is too deep itself. -/
theorem refuses_array {items : List Json}
    (hitems : ∀ v ∈ items, Reads (value levels) v ∨ Refuses (value levels) v)
    (hbad : ∃ v ∈ items, Refuses (value levels) v) :
    Refuses (value (levels + 1)) (.array items) := by
  intro s o _
  cases items with
  | nil => exact absurd hbad (by simp)
  | cons v items =>
    obtain ⟨c, t, ht, hc⟩ := exists_cons_write v
    have hlength := length_le_writeItems items
    have hends := numberEnds_writeItems items s
    have htext : write (.array (v :: items)) ++ s = '[' :: c :: (t ++ (writeItems items ++ s)) := by
      simp [write, ht]
    rw [htext, value_bracket, itemsFrom_first hc, bind_assoc, ← List.cons_append, ← ht]
    by_cases hv : Refuses (value levels) v
    · exact (hv _ _ hends).bind
    · have hread : Reads (value levels) v := (hitems v List.mem_cons_self).resolve_right hv
      refine (hread _ _ hends).bind_breaks fun o => ?_
      obtain ⟨w, hw, hwbad⟩ := hbad
      obtain rfl | hw := List.mem_cons.1 hw
      · exact absurd hwbad hv
      · refine (itemsFrom_breaks (fun w hw => hitems w (List.mem_cons_of_mem v hw))
          ⟨w, hw, hwbad⟩ (List.cons_ne_nil v []) ?_ o).bind
        simp
        omega

/-- So is an object with such a value. -/
theorem refuses_object {members : Members}
    (hmembers : ∀ m ∈ members, Reads (value levels) m.2 ∨ Refuses (value levels) m.2)
    (hbad : ∃ m ∈ members, Refuses (value levels) m.2) :
    Refuses (value (levels + 1)) (.object members) := by
  intro s o _
  cases members with
  | nil => exact absurd hbad (by simp)
  | cons m members =>
    obtain ⟨k, v⟩ := m
    have hlength := length_le_writeMembers members
    have hends := numberEnds_writeMembers members s
    have htext : write (.object ((k, v) :: members)) ++ s =
        '\x7b' :: (writeString k ++ ':' :: (write v ++ (writeMembers members ++ s))) := by
      simp [write]
    rw [htext, value_brace]
    obtain ⟨o', ho'⟩ := membersFrom_first (value levels) k v
      ((writeString k ++ ':' :: (write v ++ (writeMembers members ++ s))).length + 1)
      (writeMembers members ++ s) (o + 1)
    rw [ho', bind_assoc]
    by_cases hv : Refuses (value levels) v
    · exact (hv _ _ hends).bind
    · have hread : Reads (value levels) v :=
        (hmembers (k, v) List.mem_cons_self).resolve_right hv
      refine (hread _ _ hends).bind_breaks fun o => ?_
      obtain ⟨m, hm, hmbad⟩ := hbad
      obtain rfl | hm := List.mem_cons.1 hm
      · exact absurd hmbad hv
      · refine (membersFrom_breaks (fun m hm => hmembers m (List.mem_cons_of_mem _ hm))
          ⟨m, hm, hmbad⟩ ?_ o).bind
        simp
        omega

/-- **A document is read where it is written, as far as the levels reach, and is refused for
its depth where they do not.** -/
theorem reads_or_refuses (v : Json) (hv : v.WellFormed) (hn : v.AllNumbers Number.IsReadBack)
    (levels : Nat) :
    (v.depth ≤ levels → Reads (value levels) v) ∧
      (levels < v.depth → Refuses (value levels) v) := by
  induction v using Json.induction generalizing levels with
  | null => exact ⟨fun _ => reads_null, fun h => absurd h (Nat.not_lt_zero _)⟩
  | bool b => exact ⟨fun _ => reads_bool b, fun h => absurd h (Nat.not_lt_zero _)⟩
  | number n =>
    cases hn with
    | number hn => exact ⟨fun _ => reads_number hn, fun h => absurd h (Nat.not_lt_zero _)⟩
  | string s => exact ⟨fun _ => reads_string s, fun h => absurd h (Nat.not_lt_zero _)⟩
  | array items ih =>
    have hitems := wellFormedItems_iff.1 hv
    have hn : ∀ v ∈ items, v.AllNumbers Number.IsReadBack := by
      cases hn with
      | array hn => exact hn
    have ih := fun v hmem => ih v hmem (hitems v hmem) (hn v hmem)
    cases levels with
    | zero =>
      refine ⟨fun h => absurd h (Nat.not_succ_le_zero _), fun _ s o _ => ?_⟩
      cases items <;> exact value_zero_breaks (Or.inl rfl)
    | succ levels =>
      refine ⟨fun h => reads_array fun v hv => ?_, fun h => refuses_array (fun v hv => ?_) ?_⟩
      · exact (ih v hv levels).1 (depthItems_le_iff.1 (Nat.le_of_succ_le_succ h) v hv)
      · exact (le_or_gt v.depth levels).imp (ih v hv levels).1
          (ih v hv levels).2
      · -- if no item were too deep, the array would not be
        by_contra hnone
        refine absurd (depthItems_le_iff.2 fun v hv => ?_) (Nat.not_le.2 (Nat.lt_of_succ_lt_succ h))
        by_contra hdeep
        exact hnone ⟨v, hv, (ih v hv levels).2 (Nat.not_le.1 hdeep)⟩
  | object members ih =>
    have hmembers := wellFormedMembers_iff.1 hv.2
    have hn : ∀ m ∈ members, m.2.AllNumbers Number.IsReadBack := by
      cases hn with
      | object hn => exact hn
    have ih := fun m hmem => ih m hmem (hmembers m hmem) (hn m hmem)
    cases levels with
    | zero =>
      refine ⟨fun h => absurd h (Nat.not_succ_le_zero _), fun _ s o _ => ?_⟩
      cases members <;> exact value_zero_breaks (Or.inr rfl)
    | succ levels =>
      refine ⟨fun h => reads_object (fun m hm => ?_) hv.1,
        fun h => refuses_object (fun m hm => ?_) ?_⟩
      · exact (ih m hm levels).1
          (depthMembers_le_iff.1 (Nat.le_of_succ_le_succ h) m hm)
      · exact (le_or_gt m.2.depth levels).imp (ih m hm levels).1
          (ih m hm levels).2
      · by_contra hnone
        refine absurd (depthMembers_le_iff.2 fun m hm => ?_)
          (Nat.not_le.2 (Nat.lt_of_succ_lt_succ h))
        by_contra hdeep
        exact hnone ⟨m, hm, (ih m hm levels).2 (Nat.not_le.1 hdeep)⟩

end Reader

/-! ## Whole texts -/

open Reader

/-- **The text of a document that is not nested too deep is read as that document.** -/
theorem read_write {v : Json} (hv : v.WellFormed) (hn : v.AllNumbers Number.IsReadBack)
    (h : v.depth ≤ maxLevels) : read (write v) = .ok v := by
  obtain ⟨o, ho⟩ := (reads_or_refuses v hv hn maxLevels).1 h [] 0 (fun c hc => by cases hc)
  rw [List.append_nil] at ho
  have hspaces : Cursor.skipSpaces ⟨[], o⟩ = ⟨[], o⟩ := skipSpaces_eq (fun c hc => by cases hc) o
  simp only [read, Cursor.start, ho, bind, Except.bind, hspaces]
  rfl

/-- The text of a document that is nested too deep is refused for that. -/
theorem read_write_deep {v : Json} (hv : v.WellFormed) (hn : v.AllNumbers Number.IsReadBack)
    (h : maxLevels < v.depth) : ∃ f, read (write v) = .error f ∧ f.cause = .nestedTooDeep := by
  obtain ⟨o, ho⟩ := (reads_or_refuses v hv hn maxLevels).2 h [] 0 (fun c hc => by cases hc)
  rw [List.append_nil] at ho
  refine ⟨⟨.nestedTooDeep, o⟩, ?_, rfl⟩
  simp only [read, Cursor.start, ho, bind, Except.bind]

end Json

end Reshape
