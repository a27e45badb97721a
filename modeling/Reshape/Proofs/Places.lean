/-
# Faults lie within the text

Wherever a text is found to be no expression, in one of its lexemes, by the parser or in the
check of its calls, the place that is reported is the offset of a character of the text, or its
end (`Boundary`).  Offsets are counted in bytes, so this says that the text can be cut there
(`faults_point_into_the_text`).

The tokenizer keeps account of the text before the lexeme at hand, whose bytes are the offset;
inside a string it goes on character by character.  The parser only passes on the places of
tokens.
-/
import Reshape.Proofs.Arities
import Reshape.Proofs.Pieces
import Reshape.Proofs.Written

namespace Reshape.Expression

open Text.Utf8 (size)

/-! ## Boundaries of characters -/

/-- That many bytes into the text there is this rest of it. -/
def Behind (text : List Char) (offset : Nat) (rest : List Char) : Prop :=
  ∃ before, text = before ++ rest ∧ offset = size before

/-- The offset is that of a character of the text, or of its end. -/
def Boundary (text : List Char) (offset : Nat) : Prop := ∃ rest, Behind text offset rest

namespace Behind

variable {text rest w : List Char} {offset : Nat}

theorem start (text : List Char) : Behind text 0 text := ⟨[], rfl, rfl⟩

theorem boundary (h : Behind text offset rest) : Boundary text offset := ⟨rest, h⟩

/-- Some characters further on there is what comes behind them. -/
theorem further (h : Behind text offset (w ++ rest)) : Behind text (offset + size w) rest := by
  obtain ⟨before, htext, hoffset⟩ := h
  refine ⟨before ++ w, ?_, ?_⟩
  · rw [htext, List.append_assoc]
  · rw [size_append, hoffset]

theorem next {c : Char} (h : Behind text offset (c :: rest)) :
    Behind text (offset + c.utf8Size) rest :=
  further (w := [c]) h

end Behind

/-- A boundary cuts the text in two. -/
theorem Boundary.exists_append {source : String} {offset : Nat}
    (h : Boundary source.toList offset) :
    ∃ before behind : String, source = before ++ behind ∧ offset = before.utf8ByteSize := by
  obtain ⟨rest, before, htext, hoffset⟩ := h
  refine ⟨.ofList before, .ofList rest, ?_, ?_⟩
  · rw [← String.ofList_append, ← htext, String.ofList_toList]
  · rw [hoffset, ← size_toList, String.toList_ofList]

/-! ## Lexemes -/

namespace Lexer

variable {text rest : List Char} {offset : Nat}

/-- One-letter escapes are written with characters of one byte. -/
theorem utf8Size_of_simpleEscape? {e x : Char} (h : simpleEscape? e = some x) :
    e.utf8Size = 1 := by
  have hletters : ∀ p ∈ letterEscapes, p.1.utf8Size = 1 := by decide
  exact hletters (e, x) (simpleEscape?_eq_some_iff.1 h)

/-- A fault in a string is at its opening quote, or behind a backslash in it. -/
theorem reports_stringBody {quote : Char} {start : Nat} (hstart : Boundary text start)
    (h : Behind text offset rest) :
    Reports (Boundary text) (fun _ => True) (stringBody quote start offset rest) := by
  fun_induction stringBody quote start offset rest with
  | case1 | case2 => exact .error hstart
  | case3 offset a b c d rest x hx ih =>
    refine (ih ?_).map fun _ _ => trivial
    exact Behind.further (w := [a, b, c, d]) h.next.next
  | case4 | case5 | case7 => exact .error h.next.boundary
  | case6 offset e rest hu hne x hx ih =>
    refine (ih ?_).map fun _ _ => trivial
    have hbehind := h.next.next
    rwa [utf8Size_of_simpleEscape? hx] at hbehind
  | case8 offset c rest => exact .ok trivial
  | case9 offset c rest _ _ _ _ ih => exact (ih h.next).map fun _ _ => trivial

/-- A lexeme that is broken is reported at a boundary. -/
theorem reports_lexeme {c : Char} (h : Behind text offset (c :: rest)) :
    Reports (Boundary text) (fun _ => True) (lexeme offset c rest) := by
  unfold lexeme
  split_ifs with hblank hcomment hdigit hquote
  · exact .ok trivial
  · split
    · exact .ok trivial
    · exact .error h.boundary
  · exact .ok trivial
  · -- a string, whose quote is one byte
    have hone : c.utf8Size = 1 := by
      rcases (Bool.or_eq_true_iff ..).1 hquote with hc | hc <;> rw [eq_of_beq hc] <;> rfl
    have hbehind := h.next
    rw [hone] at hbehind
    exact (reports_stringBody h.boundary hbehind).bind fun _ _ => .ok trivial
  · split
    · exact .ok trivial
    · exact .error h.boundary
  · exact .ok trivial
  · exact .ok trivial
  · split
    · exact .ok trivial
    · exact .error h.boundary

/-- **The tokens of a text are at boundaries**, and so is the place at which it is found to have
none. -/
theorem reports_tokensFrom (steps : Nat) (h : Behind text offset rest) :
    Reports (Boundary text) (fun ts => ∀ t ∈ ts, Boundary text t.position)
      (tokensFrom steps offset rest) := by
  induction steps generalizing offset rest with
  | zero => exact .ok (List.forall_mem_singleton.2 h.boundary)
  | succ steps ih =>
    cases rest with
    | nil => exact .ok (List.forall_mem_singleton.2 h.boundary)
    | cons c rest =>
      rw [tokensFrom]
      refine (reports_lexeme h).bind fun l _ => ?_
      have hbehind : Behind text (offset + size ((c :: rest).take l.length))
          ((c :: rest).drop l.length) := by
        refine Behind.further (w := (c :: rest).take l.length) ?_
        rwa [List.take_append_drop]
      refine (ih hbehind).bind fun more hmore => ?_
      split
      · exact .ok (List.forall_mem_cons.2 ⟨h.boundary, hmore⟩)
      · exact .ok hmore

end Lexer

/-! ## Whole texts -/

theorem reports_tokens (source : String) :
    Reports (Boundary source.toList)
      (fun ts => ts ≠ [] ∧ ∀ t ∈ ts, Boundary source.toList t.position) (tokens source) := by
  have hreports := Lexer.reports_tokensFrom source.toList.length (.start source.toList)
  rw [tokens]
  cases htokens : Lexer.tokensFrom source.toList.length 0 source.toList with
  | error f =>
    rw [htokens] at hreports
    exact .error hreports.of_error
  | ok ts =>
    rw [htokens] at hreports
    obtain ⟨before, _, rfl, -⟩ := Lexer.ended_tokensFrom htokens
    exact .ok ⟨by simp, hreports.of_ok⟩

theorem reports_compileTree (source : String) :
    Reports (Boundary source.toList) (fun _ => True) (compileTree source) := by
  have hparse : Reports (Boundary source.toList) (fun t => t.WrittenAt (Boundary source.toList))
      (parse source) :=
    (reports_tokens source).bind fun ts hts => reports_parseTokens hts.1 hts.2
  refine hparse.bind fun t ht => ?_
  split
  · -- the fault of a call is at the place of the call
    rename_i fault hfault
    obtain ⟨u, hu, hroot⟩ := Tree.exists_inside_of_arityFault? hfault
    obtain ⟨f, args, position, rfl, -, rfl⟩ := Tree.rootFault?_eq_some_iff.1 hroot
    exact .error (ht _ hu)
  · exact .ok trivial

/-- **Faults point into the text.**  Whatever the text, if it does not compile, then the place
that is reported is a byte offset within the text, at a boundary of its characters, so the text
can be cut in two there. -/
theorem faults_point_into_the_text {source : String} {fault : Fault}
    (h : compileTree source = .error fault) :
    fault.position ≤ source.utf8ByteSize ∧ (⟨fault.position⟩ : String.Pos.Raw).IsValid source ∧
      ∃ before behind : String, source = before ++ behind
        ∧ before.utf8ByteSize = fault.position := by
  have hreports := reports_compileTree source
  rw [h] at hreports
  obtain ⟨before, behind, hsource, hposition⟩ := hreports.of_error.exists_append
  have hvalid : (⟨fault.position⟩ : String.Pos.Raw).IsValid source :=
    String.Pos.Raw.isValid_iff_exists_append.2
      ⟨before, behind, hsource, congrArg String.Pos.Raw.mk hposition⟩
  exact ⟨hvalid.le_utf8ByteSize, hvalid, before, behind, hsource, hposition.symm⟩

/-- An escape that is none is pointed to behind four characters of two bytes. -/
theorem broken_escape_is_pointed_to :
    compileTree "ü.ä + 'éö\\q'" = .error ⟨.unsupportedEscape 'q', 14⟩ ∧
      14 ≤ "ü.ä + 'éö\\q'".utf8ByteSize ∧
      (⟨14⟩ : String.Pos.Raw).IsValid "ü.ä + 'éö\\q'" ∧
      ∃ before behind : String, "ü.ä + 'éö\\q'" = before ++ behind
        ∧ before.utf8ByteSize = 14 := by
  have hfault : compileTree "ü.ä + 'éö\\q'" = .error ⟨.unsupportedEscape 'q', 14⟩ := by rfl
  exact ⟨hfault, faults_point_into_the_text hfault⟩

end Reshape.Expression
