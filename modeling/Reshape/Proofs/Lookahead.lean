/-
# How far a lexeme looks ahead

A lexeme ends where the next character does not go on with it, and one character decides
(`joins`).  So a lexeme that was read in front of one text is read in front of any text that
starts with a character of no token, such as a blank or the slash of a comment
(`lexeme_break`).  It does not depend on the place of the text either, and it takes at least
one character and at most those there are (`lexeme_length`).
-/
import Reshape.Proofs.Digits
import Reshape.Proofs.Escapes

namespace Reshape.Expression

open Text (Ends isBlank isDigit isNamePart)

namespace Lexer

/-! ## The next character -/

/-- A character that can stand in a token behind its first one. -/
def joins (c : Char) : Bool :=
  isNamePart c || isDigit c || ['.', '+', '-', '$', '*', '=', '>'].contains c

/-- The tests that a look-ahead makes fail on what joins no token. -/
theorem not_joins_iff {c : Char} : joins c = false ↔
    isNamePart c = false ∧ isDigit c = false ∧ c ∉ ['.', '+', '-', '$', '*', '=', '>'] := by
  simp [joins, and_assoc]

theorem joins_slash : joins '/' = false := by decide

/-- What a list of intervals has lies in one of them. -/
theorem exists_of_has {r : Text.Ranges} {n : Nat} (h : r.has n = true) :
    ∃ i ∈ r, i.1 ≤ n ∧ n ≤ i.2 := by
  induction r with
  | nil => cases h
  | cons i r ih =>
    rw [Text.Ranges.has] at h
    split_ifs at h with hlow
    rcases Bool.or_eq_true_iff.1 h with hhigh | hrest
    · exact ⟨i, List.mem_cons_self, Nat.le_of_not_lt hlow, of_decide_eq_true hhigh⟩
    · obtain ⟨j, hj, hn⟩ := ih hrest
      exact ⟨j, List.mem_cons_of_mem i hj, hn⟩

theorem joins_of_isBlank {c : Char} (h : isBlank c = true) : joins c = false := by
  have hblank : ∀ i ∈ Text.blankRanges, ∀ k < i.2 + 1 - i.1,
      joins (Char.ofNat (i.1 + k)) = false := by
    decide +kernel
  obtain ⟨i, hi, hlow, hhigh⟩ := exists_of_has h
  have hc := hblank i hi (c.toNat - i.1) (by omega)
  rwa [Nat.add_sub_cancel' hlow, Char.ofNat_toNat] at hc

section Break

variable {a b w : List Char}

/-- A run that ends within the text ends there whatever is put behind the text. -/
theorem takeWhile_break {p : Char → Bool} (hp : ∀ c, joins c = false → p c = false)
    (hw : Ends joins w) (hlen : ((a ++ b).takeWhile p).length ≤ a.length) :
    (a ++ w).takeWhile p = (a ++ b).takeWhile p := by
  induction a with
  | nil =>
    have hnil : b.takeWhile p = [] := List.length_eq_zero_iff.1 (Nat.le_zero.1 hlen)
    show w.takeWhile p = b.takeWhile p
    rw [hnil]
    exact Text.takeWhile_append (List.forall_mem_nil _) fun c hc => hp c (hw c hc)
  | cons x a ih =>
    rw [List.cons_append, List.takeWhile_cons] at hlen
    rw [List.cons_append, List.cons_append, List.takeWhile_cons, List.takeWhile_cons]
    by_cases hx : p x = true
    · rw [if_pos hx, List.length_cons, List.length_cons] at hlen
      rw [if_pos hx, if_pos hx, ih (by omega)]
    · rw [if_neg hx, if_neg hx]

theorem digits_break (hw : Ends joins w) (hlen : ((a ++ b).takeWhile isDigit).length ≤ a.length) :
    (a ++ w).takeWhile isDigit = (a ++ b).takeWhile isDigit :=
  takeWhile_break (fun _ hc => (not_joins_iff.1 hc).2.1) hw hlen

theorem nameParts_break (hw : Ends joins w)
    (hlen : ((a ++ b).takeWhile isNamePart).length ≤ a.length) :
    (a ++ w).takeWhile isNamePart = (a ++ b).takeWhile isNamePart :=
  takeWhile_break (fun _ hc => (not_joins_iff.1 hc).1) hw hlen

/-- What joins no token is none of the characters that only some tokens go on with. -/
theorem head?_ne_of_joins {c : Char} (hw : Ends joins w) (hc : joins c = true) :
    w.head? ≠ some c := by
  intro h
  rw [hw c h] at hc
  cases hc

/-! ## Numbers -/

theorem fraction_of_head?_ne {s : List Char} (h : s.head? ≠ some '.') : fraction s = [] := by
  cases s with
  | nil => rfl
  | cons c s =>
    rw [fraction]
    intro rest hs
    exact h (congrArg some (List.cons.inj hs).1)

/-- An empty run, or one that fits behind `m` characters, fits. -/
theorem length_le_of_nil_or {xs : List Char} {m n : Nat} (h : xs = [] ∨ m + xs.length ≤ n + m) :
    xs.length ≤ n := by
  rcases h with rfl | h
  · exact Nat.zero_le n
  · omega

theorem fraction_break (hw : Ends joins w)
    (hlen : fraction (a ++ b) = [] ∨ 1 + (fraction (a ++ b)).length ≤ a.length) :
    fraction (a ++ w) = fraction (a ++ b) := by
  cases a with
  | nil =>
    have hb : fraction b = [] := hlen.resolve_right (by simp)
    show fraction w = fraction b
    rw [hb, fraction_of_head?_ne (head?_ne_of_joins hw (by decide))]
  | cons c a =>
    by_cases hc : c = '.'
    · subst hc
      exact digits_break hw (length_le_of_nil_or hlen)
    · rw [fraction_of_head?_ne (by simpa using hc), fraction_of_head?_ne (by simpa using hc)]

/-- The sign and the digits behind the letter of an exponent. -/
def signed (s : List Char) : List Char × List Char :=
  match s with
  | '+' :: more => (['+'], more.takeWhile isDigit)
  | '-' :: more => (['-'], more.takeWhile isDigit)
  | _ => ([], s.takeWhile isDigit)

theorem signed_of_head?_ne {s : List Char} (hplus : s.head? ≠ some '+')
    (hminus : s.head? ≠ some '-') : signed s = ([], s.takeWhile isDigit) := by
  unfold signed
  split
  · exact absurd rfl hplus
  · exact absurd rfl hminus
  · rfl

theorem exponent_cons (e : Char) (s : List Char) :
    exponent (e :: s) = if e == 'e' || e == 'E' then signed s else ([], []) := by
  unfold exponent
  rfl

/-- Two readings of an exponent agree: on its digits, and on its sign if there are digits. -/
def SamePower (p q : List Char × List Char) : Prop := p.2 = q.2 ∧ (q.2 = [] ∨ p.1 = q.1)

theorem signed_break (hw : Ends joins w)
    (hlen : (signed (a ++ b)).2 = [] ∨
      (signed (a ++ b)).1.length + (signed (a ++ b)).2.length ≤ a.length) :
    SamePower (signed (a ++ w)) (signed (a ++ b)) := by
  cases a with
  | nil =>
    have hb : (signed b).2 = [] := by
      rcases hlen with hlen | hlen
      · exact hlen
      · exact List.length_eq_zero_iff.1 (Nat.eq_zero_of_add_eq_zero (Nat.le_zero.1 hlen)).2
    have hnone : (signed w).2 = [] := by
      rw [signed_of_head?_ne (head?_ne_of_joins hw (by decide))
        (head?_ne_of_joins hw (by decide))]
      exact digits_break (a := []) (b := []) hw (Nat.le_refl 0)
    exact ⟨hnone.trans hb.symm, Or.inl hb⟩
  | cons c a =>
    by_cases hplus : c = '+'
    · subst hplus
      exact ⟨digits_break hw (length_le_of_nil_or hlen), Or.inr rfl⟩
    by_cases hminus : c = '-'
    · subst hminus
      exact ⟨digits_break hw (length_le_of_nil_or hlen), Or.inr rfl⟩
    -- the run of digits starts with `c` itself
    have hdigits : ∀ s : List Char, signed (c :: s) = ([], (c :: s).takeWhile isDigit) :=
      fun s => signed_of_head?_ne (by simpa using hplus) (by simpa using hminus)
    rw [List.cons_append, hdigits] at hlen
    rw [List.cons_append, List.cons_append, hdigits, hdigits]
    exact ⟨digits_break (a := c :: a) hw (length_le_of_nil_or (m := 0) (by simpa using hlen)),
      Or.inr rfl⟩

/-- Only the digits of an exponent count, and its sign with them. -/
theorem exponent_break (hw : Ends joins w)
    (hlen : (exponent (a ++ b)).2 = [] ∨
      1 + (exponent (a ++ b)).1.length + (exponent (a ++ b)).2.length ≤ a.length) :
    SamePower (exponent (a ++ w)) (exponent (a ++ b)) := by
  cases a with
  | nil =>
    have hb : (exponent b).2 = [] := hlen.resolve_right (by simp)
    have hnone : exponent w = ([], []) := by
      cases w with
      | nil => rfl
      | cons e w =>
        have hmark : ∀ c, joins c = true → e ≠ c := fun c hc he =>
          head?_ne_of_joins hw hc (congrArg some he)
        have he := hmark 'e' (by decide)
        have hE := hmark 'E' (by decide)
        rw [exponent_cons, if_neg (by simpa using And.intro he hE)]
    exact ⟨(congrArg Prod.snd hnone).trans hb.symm, Or.inl hb⟩
  | cons e a =>
    rw [List.cons_append, exponent_cons] at hlen
    rw [List.cons_append, List.cons_append, exponent_cons, exponent_cons]
    split
    · rename_i he
      rw [if_pos he] at hlen
      refine signed_break hw (hlen.imp_right fun hlen => ?_)
      rw [List.length_cons] at hlen
      omega
    · exact ⟨rfl, Or.inl rfl⟩

theorem number_break (hw : Ends joins w) (hlen : (number (a ++ b)).length ≤ a.length) :
    number (a ++ w) = number (a ++ b) := by
  simp only [number] at hlen ⊢
  have hwhole : ((a ++ b).takeWhile isDigit).length ≤ a.length := by omega
  rw [digits_break hw hwhole]
  generalize (a ++ b).takeWhile isDigit = whole at hlen hwhole ⊢
  rw [List.drop_append_of_le_length hwhole] at hlen ⊢
  rw [List.drop_append_of_le_length hwhole]
  have hplaces : fraction (a.drop whole.length ++ w) = fraction (a.drop whole.length ++ b) := by
    refine fraction_break hw ?_
    by_cases hnil : fraction (a.drop whole.length ++ b) = []
    · exact Or.inl hnil
    · rw [if_neg (by simpa using hnil)] at hlen
      refine Or.inr ?_
      rw [List.length_drop]
      omega
  rw [hplaces]
  generalize fraction (a.drop whole.length ++ b) = places at hlen ⊢
  generalize (if places.isEmpty = true then 0 else places.length + 1) = pointed at hlen ⊢
  have hpointed : whole.length + pointed ≤ a.length := by omega
  rw [List.drop_append_of_le_length hpointed] at hlen ⊢
  rw [List.drop_append_of_le_length hpointed]
  have hpower : SamePower (exponent (a.drop (whole.length + pointed) ++ w))
      (exponent (a.drop (whole.length + pointed) ++ b)) := by
    refine exponent_break hw ?_
    by_cases hnil : (exponent (a.drop (whole.length + pointed) ++ b)).2 = []
    · exact Or.inl hnil
    · rw [if_neg (by simpa using hnil)] at hlen
      refine Or.inr ?_
      rw [List.length_drop]
      omega
  obtain ⟨hdigits, hnil | hsign⟩ := hpower
  · -- without digits the sign makes no difference
    rw [hdigits, hnil]
    simp [Text.decimal, Text.decimalFrom]
  · rw [hdigits, hsign]

/-! ## The other tokens -/

theorem two_le_of_commentLength? {s : List Char} {n : Nat} (h : commentLength? s = some n) :
    2 ≤ n := by
  fun_induction commentLength? s generalizing n with
  | case1 => cases h; exact Nat.le_refl 2
  | case2 c rest _ ih =>
    obtain ⟨m, hm, rfl⟩ := Option.map_eq_some_iff.1 h
    exact Nat.le_succ_of_le (ih hm)
  | case3 => cases h

theorem commentLength?_cons (c : Char) (s : List Char) :
    commentLength? (c :: s) =
      if c = '*' ∧ s.head? = some '/' then some 2 else (commentLength? s).map (· + 1) := by
  split
  · rename_i h
    obtain ⟨rfl, hs⟩ := h
    cases s with
    | nil => cases hs
    | cons d s =>
      cases Option.some.inj hs
      rfl
  · rename_i h
    rw [commentLength?]
    rintro rest hc rfl
    exact h ⟨hc, rfl⟩

theorem commentLength?_break {n : Nat} (h : commentLength? (a ++ b) = some n)
    (hlen : n ≤ a.length) : commentLength? (a ++ w) = some n := by
  induction a generalizing n with
  | nil =>
    have htwo := two_le_of_commentLength? h
    exact absurd (htwo.trans hlen) (by simp)
  | cons c a ih =>
    have hhead : a ≠ [] → (a ++ w).head? = (a ++ b).head? := fun ha => by
      rw [List.head?_append_of_ne_nil _ ha, List.head?_append_of_ne_nil _ ha]
    rw [List.cons_append, commentLength?_cons] at h ⊢
    split at h
    · rename_i hend
      have ha : a ≠ [] := by
        rintro rfl
        cases h
        exact absurd hlen (by simp)
      rwa [if_pos ⟨hend.1, (hhead ha).trans hend.2⟩]
    · rename_i hend
      obtain ⟨m, hm, rfl⟩ := Option.map_eq_some_iff.1 h
      have hm' : m ≤ a.length := Nat.le_of_succ_le_succ hlen
      have ha : a ≠ [] := by
        rintro rfl
        exact absurd ((two_le_of_commentLength? hm).trans hm') (by simp)
      rw [if_neg (fun hend' => hend ⟨hend'.1, (hhead ha).symm.trans hend'.2⟩), ih hm hm']
      rfl

theorem quotedName?_break {x : List Char} (h : quotedName? (a ++ b) = some x)
    (hlen : x.length < a.length) : quotedName? (a ++ w) = some x := by
  induction a generalizing x with
  | nil => cases hlen
  | cons c a ih =>
    rw [List.cons_append, quotedName?] at h ⊢
    split at h
    · rwa [if_pos ‹_›]
    · rw [if_neg ‹_›]
      obtain ⟨y, hy, rfl⟩ := Option.map_eq_some_iff.1 h
      rw [ih hy (by simpa using hlen)]
      rfl

theorem stringBody_break {quote : Char} {start start' offset offset' n : Nat} {text : List Char}
    (hquote : quote ≠ '\\')
    (h : stringBody quote start offset (a ++ b) = .ok (text, n)) (hlen : n ≤ a.length) :
    stringBody quote start' offset' (a ++ w) = .ok (text, n) := by
  obtain ⟨row, rest, hrow, hs, rfl⟩ := exists_row h
  have hprefix : row ++ [quote] <+: a ++ b :=
    ⟨rest, by rw [hs, List.append_assoc, List.singleton_append]⟩
  obtain ⟨more, rfl⟩ : row ++ [quote] <+: a :=
    List.prefix_of_prefix_length_le hprefix (List.prefix_append a b) (by simpa using hlen)
  rw [List.append_assoc, List.append_assoc, List.singleton_append]
  exact stringBody_row hquote hrow start' offset' (more ++ w)

theorem variableName_break (hw : Ends joins w) (hlen : (variableName (a ++ b)).length ≤ a.length) :
    variableName (a ++ w) = variableName (a ++ b) := by
  have hname : ∀ s : List Char, s.head? ≠ some '$' → variableName s = s.takeWhile isNamePart := by
    intro s hs
    unfold variableName
    split
    · exact absurd rfl hs
    · rfl
  cases a with
  | nil =>
    have hb : b.head? ≠ some '$' := by
      cases b with
      | nil => simp
      | cons c b =>
        intro hc
        cases Option.some.inj hc
        cases hlen
    have hw' := head?_ne_of_joins (c := '$') hw (by decide)
    rw [List.nil_append, hname b hb] at hlen
    rw [List.nil_append, List.nil_append, hname w hw', hname b hb]
    exact nameParts_break (a := []) hw hlen
  | cons c a =>
    by_cases hc : c = '$'
    · subst hc
      rfl
    · have hne : ∀ s, (c :: s).head? ≠ some '$' := fun s => by simpa using hc
      rw [List.cons_append, hname _ (hne _)] at hlen
      rw [List.cons_append, List.cons_append, hname _ (hne _), hname _ (hne _)]
      exact nameParts_break (a := c :: a) hw hlen

/-- A symbol has one character, or two, of which the second one joins a token. -/
theorem chars_cases (p : Symbol) :
    (∃ x, p.chars = [x]) ∨ ∃ x y, p.chars = [x, y] ∧ joins y = true := by
  cases p <;> first
    | exact Or.inl ⟨_, rfl⟩
    | exact Or.inr ⟨_, _, rfl, by decide⟩

/-- What joins no token does not complete a symbol of two characters. -/
theorem isPrefixOf_of_ends (hw : Ends joins w) (c : Char) (p : Symbol) :
    p.chars.isPrefixOf (c :: w) = (p.chars == [c]) := by
  rcases chars_cases p with ⟨x, hx⟩ | ⟨x, y, hxy, hy⟩
  · rw [hx]
    simp [List.isPrefixOf]
  · have hsecond : [y].isPrefixOf w = false := by
      cases w with
      | nil => rfl
      | cons z w =>
        have hne : y ≠ z := fun h => head?_ne_of_joins hw hy (congrArg some h.symm)
        simpa [List.isPrefixOf] using hne
    rw [hxy, List.isPrefixOf, hsecond]
    simp

theorem atStart?_break {c : Char} {o : Symbol} (hw : Ends joins w)
    (h : Symbol.atStart? (c :: (a ++ b)) = some o) (hlen : o.chars.length ≤ a.length + 1) :
    Symbol.atStart? (c :: (a ++ w)) = some o := by
  cases a with
  | nil =>
    have hprefix : o.chars.isPrefixOf (c :: b) = true := by
      rw [List.nil_append, Symbol.atStart?] at h
      simpa using List.find?_some h
    have hchars : o.chars = [c] := by
      rw [List.isPrefixOf_iff_prefix] at hprefix
      obtain ⟨more, hmore⟩ := hprefix
      cases hchars : o.chars with
      | nil => cases o <;> cases hchars
      | cons y ys =>
        rw [hchars] at hmore hlen
        have hys : ys = [] :=
          List.length_eq_zero_iff.1 (Nat.le_zero.1 (Nat.le_of_succ_le_succ hlen))
        rw [hys, (List.cons.inj hmore).1]
    have hsymbol : ∀ p : Symbol, Symbol.all.find? (fun q => q.chars == p.chars) = some p := by
      intro p
      cases p <;> rfl
    rw [List.nil_append, Symbol.atStart?, ← hsymbol o, hchars]
    exact congrArg (List.find? · Symbol.all) (funext (isPrefixOf_of_ends hw c))
  | cons x a =>
    have hall : ∀ p : Symbol, p.chars.isPrefixOf (c :: (x :: a ++ w)) =
        p.chars.isPrefixOf (c :: (x :: a ++ b)) := by
      intro p
      rcases chars_cases p with ⟨y, hy⟩ | ⟨y, z, hyz, -⟩
      · rw [hy]
        simp [List.isPrefixOf]
      · rw [hyz]
        simp [List.isPrefixOf]
    rw [← h, Symbol.atStart?, Symbol.atStart?]
    exact congrArg (List.find? · Symbol.all) (funext hall)

/-- **A lexeme looks one character ahead.** -/
theorem lexeme_break {c : Char} {l : Lexeme} {offset offset' : Nat} (hw : Ends joins w)
    (h : lexeme offset c (a ++ b) = .ok l) (hlen : l.length ≤ a.length + 1) :
    lexeme offset' c (a ++ w) = .ok l := by
  have hhead : a ≠ [] → (a ++ w).head? = (a ++ b).head? := fun ha => by
    rw [List.head?_append_of_ne_nil _ ha, List.head?_append_of_ne_nil _ ha]
  unfold lexeme at h ⊢
  by_cases hblank : isBlank c = true
  · rw [if_pos hblank] at h ⊢
    exact h
  rw [if_neg hblank] at h ⊢
  by_cases hopen : (c == '/' && (a ++ b).head? == some '*') = true
  · rw [if_pos hopen] at h
    split at h
    · rename_i n hn
      cases h
      have ha : a ≠ [] := by
        rintro rfl
        exact absurd hlen (by simp)
      rw [List.tail_append_of_ne_nil ha] at hn
      have hn' : n ≤ a.tail.length := by
        rw [List.length_tail]
        exact Nat.le_sub_one_of_lt (Nat.le_of_succ_le_succ hlen)
      rw [hhead ha, if_pos hopen, List.tail_append_of_ne_nil ha, commentLength?_break hn hn']
    · cases h
  have hopen' : ¬ (c == '/' && (a ++ w).head? == some '*') = true := by
    by_cases ha : a = []
    · subst ha
      have hstar := head?_ne_of_joins (c := '*') hw (by decide)
      simp [hstar]
    · rwa [hhead ha]
  rw [if_neg hopen] at h
  rw [if_neg hopen']
  by_cases hdigit : isDigit c = true
  · rw [if_pos hdigit] at h ⊢
    cases h
    exact congrArg Except.ok (number_break (a := c :: a) hw hlen)
  rw [if_neg hdigit] at h ⊢
  by_cases hquote : (c == '"' || c == '\'') = true
  · rw [if_pos hquote] at h ⊢
    cases hbody : stringBody c offset (offset + 1) (a ++ b) with
    | error _ =>
      rw [hbody] at h
      cases h
    | ok r =>
      obtain ⟨text, n⟩ := r
      rw [hbody] at h
      cases h
      have hback : c ≠ '\\' := by
        rintro rfl
        cases hquote
      rw [stringBody_break hback hbody (Nat.le_of_succ_le_succ hlen)]
      rfl
  rw [if_neg hquote] at h ⊢
  by_cases htick : (c == '`') = true
  · rw [if_pos htick] at h ⊢
    split at h
    · rename_i x hx
      cases h
      rw [quotedName?_break hx (Nat.le_of_succ_le_succ hlen)]
    · cases h
  rw [if_neg htick] at h ⊢
  by_cases hdollar : (c == '$') = true
  · rw [if_pos hdollar] at h ⊢
    cases h
    rw [variableName_break hw (Nat.le_of_succ_le_succ hlen)]
  rw [if_neg hdollar] at h ⊢
  by_cases hstart : Text.isNameStart c = true
  · rw [if_pos hstart] at h ⊢
    cases h
    rw [nameParts_break hw (Nat.le_of_succ_le_succ hlen)]
  rw [if_neg hstart] at h ⊢
  split at h
  · rename_i o ho
    cases h
    rw [atStart?_break hw ho hlen]
  · cases h

end Break

/-! ## Lengths -/

theorem fraction_length_le (s : List Char) :
    fraction s = [] ∨ (fraction s).length + 1 ≤ s.length := by
  cases s with
  | nil => exact Or.inl rfl
  | cons c s =>
    by_cases hc : c = '.'
    · subst hc
      exact Or.inr (Nat.succ_le_succ (List.takeWhile_prefix (l := s) isDigit).length_le)
    · exact Or.inl (fraction_of_head?_ne (by simpa using hc))

theorem signed_length_le (s : List Char) :
    (signed s).1.length + (signed s).2.length ≤ s.length := by
  unfold signed
  split
  · rename_i more
    have hlen := (List.takeWhile_prefix (l := more) isDigit).length_le
    simp only [List.length_cons, List.length_nil]
    omega
  · rename_i more
    have hlen := (List.takeWhile_prefix (l := more) isDigit).length_le
    simp only [List.length_cons, List.length_nil]
    omega
  · simpa using (List.takeWhile_prefix (l := s) isDigit).length_le

theorem exponent_length_le (s : List Char) :
    (exponent s).2 = [] ∨ 1 + (exponent s).1.length + (exponent s).2.length ≤ s.length := by
  cases s with
  | nil => exact Or.inl rfl
  | cons e s =>
    rw [exponent_cons]
    split
    · have hlen := signed_length_le s
      rw [List.length_cons]
      exact Or.inr (by omega)
    · exact Or.inl rfl

theorem number_length_le (s : List Char) : (number s).length ≤ s.length := by
  simp only [number]
  have hwhole := (List.takeWhile_prefix (l := s) isDigit).length_le
  generalize s.takeWhile isDigit = whole at hwhole ⊢
  have hpointed : whole.length + (if (fraction (s.drop whole.length)).isEmpty then 0
      else (fraction (s.drop whole.length)).length + 1) ≤ s.length := by
    have hplaces := fraction_length_le (s.drop whole.length)
    rw [List.length_drop] at hplaces
    rcases hplaces with hnil | hlen
    · rwa [hnil]
    · split <;> omega
  generalize (if (fraction (s.drop whole.length)).isEmpty then 0
      else (fraction (s.drop whole.length)).length + 1) = pointed at hpointed ⊢
  have hpower := exponent_length_le (s.drop (whole.length + pointed))
  rw [List.length_drop] at hpower
  rcases hpower with hnil | hlen
  · rw [hnil]
    simpa using hpointed
  · split <;> omega

theorem commentLength?_le {s : List Char} {n : Nat} (h : commentLength? s = some n) :
    n ≤ s.length := by
  fun_induction commentLength? s generalizing n with
  | case1 rest =>
    cases h
    simp
  | case2 c rest _ ih =>
    obtain ⟨m, hm, rfl⟩ := Option.map_eq_some_iff.1 h
    exact Nat.succ_le_succ (ih hm)
  | case3 => cases h

theorem quotedName?_length_lt {s x : List Char} (h : quotedName? s = some x) :
    x.length < s.length := by
  induction s generalizing x with
  | nil => cases h
  | cons c s ih =>
    rw [quotedName?] at h
    split at h
    · cases h
      exact Nat.succ_pos _
    · obtain ⟨y, hy, rfl⟩ := Option.map_eq_some_iff.1 h
      exact Nat.succ_lt_succ (ih hy)

theorem variableName_length_le (s : List Char) : (variableName s).length ≤ s.length := by
  unfold variableName
  split
  · simp
  · exact (List.takeWhile_prefix (l := s) isNamePart).length_le

/-- A lexeme takes a character, and no more than there are. -/
theorem lexeme_length {c : Char} {rest : List Char} {l : Lexeme} {offset : Nat}
    (h : lexeme offset c rest = .ok l) : 0 < l.length ∧ l.length ≤ rest.length + 1 := by
  unfold lexeme at h
  by_cases hblank : isBlank c = true
  · rw [if_pos hblank] at h
    cases h
    exact ⟨Nat.one_pos, Nat.succ_pos _⟩
  rw [if_neg hblank] at h
  by_cases hopen : (c == '/' && rest.head? == some '*') = true
  · rw [if_pos hopen] at h
    split at h
    · rename_i n hn
      cases h
      have hlen := commentLength?_le hn
      have hne : rest ≠ [] := by
        rintro rfl
        simp at hopen
      have hpos := List.length_pos_iff.2 hne
      rw [List.length_tail] at hlen
      exact ⟨Nat.succ_pos _, by show n + 2 ≤ _; omega⟩
    · cases h
  rw [if_neg hopen] at h
  by_cases hdigit : isDigit c = true
  · rw [if_pos hdigit] at h
    cases h
    refine ⟨?_, number_length_le (c :: rest)⟩
    simp only [number, List.takeWhile_cons, if_pos hdigit, List.length_cons]
    omega
  rw [if_neg hdigit] at h
  by_cases hquote : (c == '"' || c == '\'') = true
  · rw [if_pos hquote] at h
    cases hbody : stringBody c offset (offset + 1) rest with
    | error _ =>
      rw [hbody] at h
      cases h
    | ok r =>
      rw [hbody] at h
      cases h
      obtain ⟨row, more, -, rfl, hn⟩ := exists_row hbody
      refine ⟨Nat.succ_pos _, ?_⟩
      show r.2 + 1 ≤ _
      rw [hn, List.length_append, List.length_cons]
      omega
  rw [if_neg hquote] at h
  by_cases htick : (c == '`') = true
  · rw [if_pos htick] at h
    split at h
    · rename_i x hx
      cases h
      exact ⟨Nat.succ_pos _, Nat.succ_le_succ (quotedName?_length_lt hx)⟩
    · cases h
  rw [if_neg htick] at h
  by_cases hdollar : (c == '$') = true
  · rw [if_pos hdollar] at h
    cases h
    exact ⟨Nat.succ_pos _, Nat.succ_le_succ (variableName_length_le rest)⟩
  rw [if_neg hdollar] at h
  by_cases hstart : Text.isNameStart c = true
  · rw [if_pos hstart] at h
    cases h
    have hlen := (List.takeWhile_prefix (l := rest) isNamePart).length_le
    exact ⟨Nat.succ_pos _, Nat.succ_le_succ hlen⟩
  rw [if_neg hstart] at h
  split at h
  · rename_i o ho
    cases h
    have hprefix : o.chars <+: c :: rest := by
      rw [Symbol.atStart?] at ho
      exact List.isPrefixOf_iff_prefix.1 (by simpa using List.find?_some ho)
    refine ⟨?_, hprefix.length_le⟩
    cases o <;> exact Nat.succ_pos _
  · cases h

end Lexer

end Reshape.Expression
