/-
# Texts cut into lexemes

A text that tokenizes is a row of whole lexemes (`Pieces`), and the row can be put in another
place: what comes behind it may be replaced by a separator (`Pieces.replace`), and the positions
move with the row (`Pieces.shift`).  Put together, the tokens of two texts with a separator
between them are the tokens of both (`tokens_separated`).
-/
import Reshape.Proofs.Lookahead
import Reshape.Proofs.Names

namespace Reshape.Expression

open Text (Ends isBlank)
open Text.Utf8 (size)

/-! ## Bytes -/

theorem size_append (s t : List Char) : size (s ++ t) = size s + size t := by
  induction s with
  | nil => exact (Nat.zero_add _).symm
  | cons c s ih =>
    show c.utf8Size + size (s ++ t) = c.utf8Size + size s + size t
    omega

/-- The bytes of a text are those of its characters. -/
theorem size_toList (s : String) : size s.toList = s.utf8ByteSize := by
  have key : ∀ cs : List Char, size cs = (String.ofList cs).utf8ByteSize := by
    intro cs
    induction cs with
    | nil => rfl
    | cons c cs ih =>
      have hsplit : String.ofList (c :: cs) = String.singleton c ++ String.ofList cs := by
        rw [String.singleton_eq_ofList, ← String.ofList_append]
        rfl
      rw [hsplit, String.utf8ByteSize_append, String.utf8ByteSize_singleton, ← ih]
      rfl
  rw [key, String.ofList_toList]

/-! ## Rows of lexemes -/

/-- The token of a lexeme at its place, if it has one. -/
def Lexeme.located (l : Lexeme) (offset : Nat) : List Located :=
  (l.token?.map fun t => ⟨t, offset⟩).toList

/-- The token that many bytes further on. -/
def Located.shift (k : Nat) (t : Located) : Located := ⟨t.token, k + t.position⟩

/-- The tokens that many bytes further on are the same tokens. -/
theorem map_token_shift (k : Nat) (ts : List Located) :
    (ts.map (Located.shift k)).map Located.token = ts.map Located.token := by
  rw [List.map_map]
  rfl

theorem Lexeme.map_shift_located (l : Lexeme) (k offset : Nat) :
    (l.located offset).map (Located.shift k) = l.located (k + offset) := by
  obtain ⟨t, n⟩ := l
  cases t <;> rfl

namespace Lexer

/-- The tokens of a text that starts at byte `offset`. -/
def tokensAt (offset : Nat) (s : List Char) : Except Fault (List Located) :=
  tokensFrom s.length offset s

/-- The text is a row of whole lexemes, with these tokens, where it starts at byte `offset` and
`rest` comes behind it. -/
inductive Pieces (rest : List Char) : Nat → List Char → List Located → Prop
  | nil {offset : Nat} : Pieces rest offset [] []
  | cons {offset : Nat} {c : Char} {piece s : List Char} {l : Lexeme} {ts : List Located}
      (h : lexeme offset c (piece ++ (s ++ rest)) = .ok l)
      (hlen : l.length = (c :: piece).length)
      (hs : Pieces rest (offset + size (c :: piece)) s ts) :
      Pieces rest offset (c :: piece ++ s) (l.located offset ++ ts)

variable {rest s s' : List Char} {offset : Nat} {ts ts' : List Located}

/-- A lexeme cuts its text in two. -/
theorem exists_piece {c : Char} {l : Lexeme} (h : lexeme offset c s = .ok l) :
    ∃ piece more, s = piece ++ more ∧ l.length = (c :: piece).length := by
  obtain ⟨hpos, hle⟩ := lexeme_length h
  refine ⟨s.take (l.length - 1), s.drop (l.length - 1), (List.take_append_drop _ s).symm, ?_⟩
  rw [List.length_cons, List.length_take]
  omega

/-- One step of the tokenizer takes one lexeme. -/
theorem tokensFrom_piece {c : Char} {piece more : List Char} {l : Lexeme} (steps : Nat)
    (h : lexeme offset c (piece ++ more) = .ok l) (hlen : l.length = (c :: piece).length) :
    tokensFrom (steps + 1) offset (c :: piece ++ more) =
      (tokensFrom steps (offset + size (c :: piece)) more).map (l.located offset ++ ·) := by
  have htake : (c :: (piece ++ more)).take l.length = c :: piece := by
    rw [hlen, ← List.cons_append, List.take_left]
  have hdrop : (c :: (piece ++ more)).drop l.length = more := by
    rw [hlen, ← List.cons_append, List.drop_left]
  rw [List.cons_append, tokensFrom, h]
  simp only [bind, Except.bind, htake, hdrop]
  cases tokensFrom steps (offset + size (c :: piece)) more with
  | error _ => rfl
  | ok ls =>
    obtain ⟨t, n⟩ := l
    cases t <;> rfl

theorem tokensFrom_nil (steps offset : Nat) :
    tokensFrom steps offset [] = .ok [⟨.done, offset⟩] := by
  cases steps <;> rfl

theorem tokensFrom_error {c : Char} {f : Fault} (steps : Nat)
    (h : lexeme offset c s = .error f) : tokensFrom (steps + 1) offset (c :: s) = .error f := by
  rw [tokensFrom, h]
  rfl

/-- As many steps as characters are enough. -/
theorem tokensFrom_eq_tokensAt {steps : Nat} (hsteps : s.length ≤ steps) :
    tokensFrom steps offset s = tokensAt offset s := by
  have key : ∀ m n offset s, s.length ≤ m → s.length ≤ n →
      tokensFrom m offset s = tokensFrom n offset s := by
    intro m
    induction m with
    | zero =>
      intro n offset s hm _
      rw [List.length_eq_zero_iff.1 (Nat.le_zero.1 hm), tokensFrom_nil, tokensFrom_nil]
    | succ m ih =>
      intro n offset s hm hn
      cases s with
      | nil => rw [tokensFrom_nil, tokensFrom_nil]
      | cons c s =>
        obtain ⟨n, rfl⟩ := Nat.exists_eq_add_one_of_ne_zero (Nat.ne_zero_of_lt hn)
        cases hl : lexeme offset c s with
        | error f => rw [tokensFrom_error m hl, tokensFrom_error n hl]
        | ok l =>
          obtain ⟨piece, more, rfl, hlen⟩ := exists_piece hl
          simp only [List.length_cons, List.length_append] at hm hn
          rw [← List.cons_append, tokensFrom_piece m hl hlen, tokensFrom_piece n hl hlen,
            ih n _ more (by omega) (by omega)]
  exact key steps s.length offset s hsteps (Nat.le_refl _)

theorem tokensAt_piece {c : Char} {piece more : List Char} {l : Lexeme}
    (h : lexeme offset c (piece ++ more) = .ok l) (hlen : l.length = (c :: piece).length) :
    tokensAt offset (c :: piece ++ more) =
      (tokensAt (offset + size (c :: piece)) more).map (l.located offset ++ ·) := by
  have hsteps : more.length ≤ (piece ++ more).length := by
    rw [List.length_append]
    omega
  rw [← tokensFrom_eq_tokensAt hsteps, ← tokensFrom_piece _ h hlen]
  rfl

/-- Whole lexemes in front only add their tokens. -/
theorem tokensAt_append (h : Pieces rest offset s ts) :
    tokensAt offset (s ++ rest) = (tokensAt (offset + size s) rest).map (ts ++ ·) := by
  induction h with
  | nil =>
    rw [List.nil_append, size, Nat.add_zero]
    cases tokensAt _ rest <;> rfl
  | @cons offset c piece s l ts hl hlen _ ih =>
    rw [List.append_assoc, tokensAt_piece hl hlen, ih, size_append, Nat.add_assoc]
    cases tokensAt _ rest with
    | error _ => rfl
    | ok ls => exact congrArg Except.ok (List.append_assoc _ _ _).symm

/-- A text that tokenizes is a row of whole lexemes. -/
theorem exists_pieces {ls : List Located} (h : tokensAt offset s = .ok ls) :
    ∃ ts, Pieces [] offset s ts ∧ ls = ts ++ [⟨.done, offset + size s⟩] := by
  induction hn : s.length using Nat.strong_induction_on generalizing s offset ls with
  | _ n ih =>
    cases s with
    | nil =>
      cases h
      exact ⟨[], .nil, rfl⟩
    | cons c s =>
      cases hl : lexeme offset c s with
      | error f =>
        rw [tokensAt, List.length_cons, tokensFrom_error _ hl] at h
        cases h
      | ok l =>
        obtain ⟨piece, more, rfl, hlen⟩ := exists_piece hl
        rw [← List.cons_append, tokensAt_piece hl hlen] at h
        cases hmore : tokensAt (offset + size (c :: piece)) more with
        | error _ =>
          rw [hmore] at h
          cases h
        | ok ls' =>
          rw [hmore] at h
          cases h
          have hlt : more.length < n := by
            rw [← hn, List.length_cons, List.length_append]
            omega
          obtain ⟨ts, hpieces, rfl⟩ := ih _ hlt hmore rfl
          refine ⟨l.located offset ++ ts, .cons ?_ hlen hpieces, ?_⟩
          · rwa [List.append_nil]
          · rw [List.append_assoc, ← List.cons_append, size_append, Nat.add_assoc]

namespace Pieces

/-- One lexeme is a row. -/
theorem one {c : Char} {piece : List Char} {l : Lexeme}
    (h : lexeme offset c (piece ++ rest) = .ok l) (hlen : l.length = (c :: piece).length) :
    Pieces rest offset (c :: piece) (l.located offset) := by
  have hcons : Pieces rest offset (c :: piece ++ []) (l.located offset ++ []) :=
    .cons h hlen .nil
  rwa [List.append_nil, List.append_nil] at hcons

/-- Rows behind one another are one row. -/
theorem append (h : Pieces (s' ++ rest) offset s ts) (h' : Pieces rest (offset + size s) s' ts') :
    Pieces rest offset (s ++ s') (ts ++ ts') := by
  induction h with
  | nil => exact h'
  | cons hl hlen _ ih =>
    rw [size_append, ← Nat.add_assoc] at h'
    rw [List.append_assoc, List.append_assoc]
    refine .cons ?_ hlen (ih h')
    rwa [List.append_assoc]

/-- What comes behind a row may be replaced by what goes on with no token, and the row may be
put at another place. -/
theorem replace {b w : List Char} (h : Pieces b offset s ts) (hw : Ends joins w) :
    Pieces w offset s ts := by
  induction h with
  | nil => exact .nil
  | @cons offset c piece s l ts hl hlen _ ih =>
    rw [← List.append_assoc] at hl
    refine .cons ?_ hlen ih
    rw [← List.append_assoc]
    refine lexeme_break hw hl ?_
    rw [hlen, List.length_append, List.length_cons]
    omega

/-- A row that starts further on has its tokens further on. -/
theorem shift (h : Pieces rest offset s ts) (k : Nat) :
    Pieces rest (k + offset) s (ts.map (Located.shift k)) := by
  induction h with
  | nil => exact .nil
  | @cons offset c piece s l ts hl hlen _ ih =>
    rw [List.map_append, Lexeme.map_shift_located]
    rw [← Nat.add_assoc] at ih
    refine .cons ?_ hlen ih
    -- the lexeme is read in front of the same text
    rw [← List.append_nil (piece ++ (s ++ rest))] at hl ⊢
    refine lexeme_break (fun c hc => by cases hc) hl ?_
    rw [hlen, List.length_append, List.length_cons]
    omega

/-- The tokens of a row lie in it, one behind the other, and none is the end mark. -/
theorem positions (h : Pieces rest offset s ts) :
    ts.Pairwise (fun t t' => t.position < t'.position) ∧
      ∀ t ∈ ts, t.token ≠ .done ∧ offset ≤ t.position ∧ t.position < offset + size s := by
  induction h with
  | nil => exact ⟨.nil, List.forall_mem_nil _⟩
  | @cons offset c piece s l ts hl hlen _ ih =>
    obtain ⟨hincreasing, hwithin⟩ := ih
    have hbytes : 0 < size (c :: piece) := Nat.add_pos_left c.utf8Size_pos _
    have hhead : ∀ t ∈ l.located offset, t.token ≠ .done ∧ t.position = offset := by
      intro t ht
      obtain ⟨u, hu, rfl⟩ := Option.map_eq_some_iff.1 (Option.mem_toList.1 ht)
      refine ⟨?_, rfl⟩
      rintro rfl
      exact token?_ne_done hl hu
    constructor
    · refine List.pairwise_append.2 ⟨?_, hincreasing, fun t ht t' ht' => ?_⟩
      · unfold Lexeme.located
        cases l.token? with
        | none => exact .nil
        | some _ => exact List.pairwise_singleton _ _
      · rw [(hhead t ht).2]
        have := (hwithin t' ht').2.1
        omega
    · intro t ht
      rw [size_append]
      rcases List.mem_append.1 ht with ht | ht
      · obtain ⟨hdone, hposition⟩ := hhead t ht
        exact ⟨hdone, by omega, by omega⟩
      · obtain ⟨hdone, hge, hlt⟩ := hwithin t ht
        exact ⟨hdone, by omega, by omega⟩

end Pieces

/-! ## Separators -/

/-- A blank, or a comment that is closed at its end and not before. -/
inductive Separator : List Char → Prop
  | blank {c : Char} (h : isBlank c = true) : Separator [c]
  | comment {body : List Char} (h : ¬ ['*', '/'] <:+: body) :
      Separator ('/' :: '*' :: (body ++ ['*', '/']))

theorem commentLength?_body {body : List Char} (h : ¬ ['*', '/'] <:+: body) (rest : List Char) :
    commentLength? (body ++ '*' :: '/' :: rest) = some (body.length + 2) := by
  induction body with
  | nil => rfl
  | cons c body ih =>
    have hopen : ¬ (c = '*' ∧ (body ++ '*' :: '/' :: rest).head? = some '/') := by
      rintro ⟨rfl, hhead⟩
      cases body with
      | nil => cases hhead
      | cons d body =>
        cases Option.some.inj hhead
        exact h ⟨[], body, rfl⟩
    rw [List.cons_append, commentLength?_cons, if_neg hopen,
      ih fun hbody => h (hbody.trans (List.suffix_cons c body).isInfix)]
    rfl

/-- A separator is a lexeme without a token, in front of any text. -/
theorem pieces_separator {w : List Char} (hw : Separator w) (rest : List Char) (offset : Nat) :
    Pieces rest offset w [] := by
  cases hw with
  | @blank c h =>
    have hl : lexeme offset c ([] ++ rest) = .ok ⟨none, 1⟩ := by
      rw [lexeme, if_pos h]
    exact .one hl rfl
  | @comment body h =>
    have hl : lexeme offset '/' ('*' :: (body ++ ['*', '/']) ++ rest) =
        .ok ⟨none, body.length + 4⟩ := by
      have hlength : commentLength? (body ++ ['*', '/'] ++ rest) = some (body.length + 2) := by
        rw [List.append_assoc]
        exact commentLength?_body h rest
      have hblank : isBlank '/' = false := by decide
      rw [lexeme, if_neg (by simp [hblank]), if_pos (by simp),
        List.cons_append, List.tail_cons, hlength]
    exact .one hl (by simp)

/-- A separator goes on with no token. -/
theorem Separator.ends {w : List Char} (hw : Separator w) (rest : List Char) :
    Ends joins (w ++ rest) := by
  cases hw with
  | blank h =>
    intro x hx
    cases hx
    exact joins_of_isBlank h
  | comment =>
    intro x hx
    cases hx
    exact joins_slash

/-- A text that is a row of lexemes tokenizes. -/
theorem tokensAt_of_pieces (h : Pieces [] offset s ts) :
    tokensAt offset s = .ok (ts ++ [⟨.done, offset + size s⟩]) := by
  have happend := tokensAt_append h
  rwa [List.append_nil] at happend

/-- A text that starts further on has its tokens further on. -/
theorem tokensAt_shift {ls : List Located} (h : tokensAt offset s = .ok ls) (k : Nat) :
    tokensAt (k + offset) s = .ok (ls.map (Located.shift k)) := by
  obtain ⟨ts, hts, rfl⟩ := exists_pieces h
  rw [tokensAt_of_pieces (hts.shift k), List.map_append, Nat.add_assoc]
  rfl

/-- A separator behind whole lexemes adds no token. -/
theorem tokensAt_separated {s₁ b w : List Char} (hw : Separator w) (h : Pieces b 0 s₁ ts)
    (s₂ : List Char) :
    tokensAt 0 (s₁ ++ (w ++ s₂)) = (tokensAt (size (s₁ ++ w)) s₂).map (ts ++ ·) := by
  have hsplit := h.replace (hw.ends s₂)
  have hseparated := hsplit.append (pieces_separator hw s₂ _)
  rw [← List.append_assoc, tokensAt_append hseparated, List.append_nil, Nat.zero_add]

/-- In front of every token a row can be cut. -/
theorem Pieces.exists_cut (h : Pieces rest offset s ts) {before after : List Located}
    {t : Located} (ht : ts = before ++ t :: after) :
    ∃ s₁ s₂, s = s₁ ++ s₂ ∧ offset + size s₁ = t.position ∧
      Pieces (s₂ ++ rest) offset s₁ before := by
  induction h generalizing before with
  | nil => simp at ht
  | @cons offset c piece s l ts hl hlen _ ih =>
    have hbehind : ∀ {before}, ts = before ++ t :: after →
        ∃ s₁ s₂, c :: piece ++ s = s₁ ++ s₂ ∧ offset + size s₁ = t.position ∧
          Pieces (s₂ ++ rest) offset s₁ (l.located offset ++ before) := by
      intro before ht
      obtain ⟨s₁, s₂, rfl, hsize, hs₁⟩ := ih ht
      refine ⟨c :: piece ++ s₁, s₂, (List.append_assoc _ _ _).symm, ?_, .cons ?_ hlen hs₁⟩
      · rw [size_append, ← Nat.add_assoc, hsize]
      · rwa [List.append_assoc] at hl
    cases htoken : l.token? with
    | none =>
      have hlocated : l.located offset = [] := by rw [Lexeme.located, htoken]; rfl
      rw [hlocated] at ht hbehind
      exact hbehind ht
    | some u =>
      have hlocated : l.located offset = [⟨u, offset⟩] := by rw [Lexeme.located, htoken]; rfl
      rw [hlocated] at ht hbehind
      cases before with
      | nil =>
        obtain ⟨rfl, -⟩ := List.cons.inj ht
        exact ⟨[], _, rfl, rfl, .nil⟩
      | cons v before =>
        obtain ⟨rfl, hts⟩ := List.cons.inj ht
        exact hbehind hts

/-- In front of every token a text that tokenizes can be cut. -/
theorem exists_cut_tokensAt {before after : List Located} {t : Located}
    (h : tokensAt offset s = .ok (before ++ t :: after)) :
    ∃ s₁ s₂, s = s₁ ++ s₂ ∧ offset + size s₁ = t.position ∧ Pieces s₂ offset s₁ before := by
  obtain ⟨ts, hts, htoken⟩ := exists_pieces h
  rcases List.eq_nil_or_concat after with rfl | ⟨after, last, rfl⟩
  · -- the end mark is behind the whole row
    obtain ⟨rfl, hlast⟩ := List.append_inj' htoken rfl
    cases hlast
    exact ⟨s, [], (List.append_nil s).symm, rfl, hts⟩
  · rw [List.concat_eq_append, ← List.cons_append, ← List.append_assoc] at htoken
    obtain ⟨rfl, -⟩ := List.append_inj' htoken rfl
    obtain ⟨s₁, s₂, hs, hsize, hs₁⟩ := hts.exists_cut rfl
    rw [List.append_nil] at hs₁
    exact ⟨s₁, s₂, hs, hsize, hs₁⟩

end Lexer

open Lexer

/-- The tokens of a text are those at its start. -/
theorem tokens_eq_tokensAt (s : String) : tokens s = tokensAt 0 s.toList := rfl

/-- The tokens of two texts with a separator between them are those of both. -/
theorem tokens_separated {s₁ s₂ w : String} {ts₁ ts₂ : List Located} (hw : Separator w.toList)
    (h₁ : tokens s₁ = .ok ts₁) (h₂ : tokens s₂ = .ok ts₂) :
    tokens (s₁ ++ w ++ s₂) =
      .ok (ts₁.dropLast ++ ts₂.map (Located.shift (s₁ ++ w).utf8ByteSize)) := by
  obtain ⟨ts, hts, rfl⟩ := exists_pieces h₁
  have hshift := tokensAt_shift h₂ (size (s₁.toList ++ w.toList))
  rw [Nat.add_zero] at hshift
  rw [tokens_eq_tokensAt, String.toList_append, String.toList_append, List.append_assoc,
    tokensAt_separated hw hts, hshift, ← String.toList_append, size_toList, List.dropLast_concat]
  rfl

/-- A separator put between two lexemes moves the tokens behind it, and changes no token. -/
theorem tokens_insert {s₁ s₂ w : String} {ts₁ ts : List Located} (hw : Separator w.toList)
    (hcut : Pieces s₂.toList 0 s₁.toList ts₁) (h : tokens (s₁ ++ s₂) = .ok ts) :
    ∃ ts₂, ts = ts₁ ++ ts₂ ∧
      tokens (s₁ ++ w ++ s₂) = .ok (ts₁ ++ ts₂.map (Located.shift w.utf8ByteSize)) := by
  rw [tokens_eq_tokensAt, String.toList_append, tokensAt_append hcut] at h
  cases hbehind : tokensAt (0 + size s₁.toList) s₂.toList with
  | error _ =>
    rw [hbehind] at h
    cases h
  | ok ts₂ =>
    rw [hbehind] at h
    cases h
    refine ⟨ts₂, rfl, ?_⟩
    have hshift := tokensAt_shift hbehind (size w.toList)
    rw [Nat.zero_add, Nat.add_comm, ← size_append] at hshift
    rw [tokens_eq_tokensAt, String.toList_append, String.toList_append, List.append_assoc,
      tokensAt_separated hw hcut, hshift, size_toList]
    rfl

/-- The tokens of a text lie in it, one behind the other, and the end mark behind all. -/
theorem tokens_positions {s : String} {ts : List Located} (h : tokens s = .ok ts) :
    (∃ before, ts = before ++ [⟨.done, s.utf8ByteSize⟩] ∧ ∀ t ∈ before, t.token ≠ .done) ∧
      ts.Pairwise (fun t t' => t.position < t'.position) := by
  obtain ⟨before, hbefore, rfl⟩ := exists_pieces h
  obtain ⟨hincreasing, hwithin⟩ := hbefore.positions
  rw [Nat.zero_add, size_toList] at hwithin ⊢
  refine ⟨⟨before, rfl, fun t ht => (hwithin t ht).1⟩, ?_⟩
  refine List.pairwise_append.2 ⟨hincreasing, List.pairwise_singleton _ _, fun t ht u hu => ?_⟩
  rw [List.mem_singleton.1 hu]
  exact (hwithin t ht).2.2

/-- **Tokenizing is compositional.**  Two texts that tokenize, with a blank or a closed comment
between them, tokenize to the tokens of both, those of the second one moved.  So a separator
can be put in between lexemes, and in particular in front of any token; it changes no token.
The positions increase, and the end mark is the last token alone, behind the last byte. -/
theorem tokens_compose :
    (∀ {s₁ s₂ w : String} {ts₁ ts₂ : List Located}, Separator w.toList →
      tokens s₁ = .ok ts₁ → tokens s₂ = .ok ts₂ →
        tokens (s₁ ++ w ++ s₂) =
          .ok (ts₁.dropLast ++ ts₂.map (Located.shift (s₁ ++ w).utf8ByteSize))) ∧
    (∀ {s₁ s₂ w : String} {ts₁ ts : List Located}, Separator w.toList →
      Pieces s₂.toList 0 s₁.toList ts₁ → tokens (s₁ ++ s₂) = .ok ts →
        ∃ ts₂, ts = ts₁ ++ ts₂ ∧
          tokens (s₁ ++ w ++ s₂) = .ok (ts₁ ++ ts₂.map (Located.shift w.utf8ByteSize))) ∧
    (∀ {s : String} {before after : List Located} {t : Located},
      tokens s = .ok (before ++ t :: after) → ∃ s₁ s₂ : String, s = s₁ ++ s₂ ∧
        s₁.utf8ByteSize = t.position ∧ Pieces s₂.toList 0 s₁.toList before) ∧
    ∀ {s : String} {ts : List Located}, tokens s = .ok ts →
      (∃ before, ts = before ++ [⟨.done, s.utf8ByteSize⟩] ∧ ∀ t ∈ before, t.token ≠ .done) ∧
        ts.Pairwise (fun t t' => t.position < t'.position) := by
  refine ⟨tokens_separated, tokens_insert, fun {s before after t} h => ?_, tokens_positions⟩
  obtain ⟨s₁, s₂, hs, hsize, hcut⟩ := exists_cut_tokensAt h
  refine ⟨String.ofList s₁, String.ofList s₂, ?_, ?_, ?_⟩
  · rw [← String.ofList_append, ← hs, String.ofList_toList]
  · rw [← size_toList, String.toList_ofList, ← hsize, Nat.zero_add]
  · rwa [String.toList_ofList, String.toList_ofList]

/-- A comment with characters of several bytes between a name and a sum. -/
theorem price_and_tax_are_separated :
    tokens ("price" ++ "/*§*/" ++ "+tax") = .ok [⟨.name "price", 0⟩, ⟨.symbol .plus, 11⟩,
      ⟨.name "tax", 12⟩, ⟨.done, 15⟩] := by
  have hw : Separator "/*§*/".toList := .comment (show ¬ ['*', '/'] <:+: ['§'] by decide)
  have h₁ : tokens "price" = .ok [⟨.name "price", 0⟩, ⟨.done, 5⟩] := by rfl
  have h₂ : tokens "+tax" = .ok [⟨.symbol .plus, 0⟩, ⟨.name "tax", 1⟩, ⟨.done, 4⟩] := by rfl
  rw [tokens_compose.1 hw h₁ h₂]
  rfl

end Reshape.Expression
