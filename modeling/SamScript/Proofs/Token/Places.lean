/-
Where tokens are. The span of a token of a text covers the stretch of the
text that its lexeme says (`Covers`), the pieces of a string literal fill
what is between its quotes, and tokens come in the order of the text, none of
them empty (`tokenize_places`).
-/
import SamScript.Proofs.Text.Utf8
import SamScript.Proofs.Token.Words
import SamScript.Proofs.Tree.Order
import SamScript.Token.Lexer

namespace SamScript

open Utf8

-- ================================================================ spans

/-- Whether a span is that of a part of a text, at its place in the text. -/
def Span.Covers (whole part : List Char) (s : Span) : Prop :=
  ∃ before rest, before ++ part ++ rest = whole ∧
    s.start = ({} : Position).after before ∧ s.stop = s.start.after part

namespace Span.Covers

variable {whole part : List Char} {s : Span}

theorem offset_start {before : List Char} (h : s.start = ({} : Position).after before) :
    s.start.offset = width before := by
  rw [h, Position.offset_after]
  exact Nat.zero_add _

/-- The bytes that the span covers are those of the part. -/
theorem slice_eq (h : s.Covers whole part) :
    slice (encode whole) s.start.offset s.stop.offset = encode part := by
  obtain ⟨before, rest, rfl, hstart, hstop⟩ := h
  rw [hstop, Position.offset_after, offset_start hstart]
  exact slice_encode before part rest

end Span.Covers

-- =============================================================== pieces

/-- The text of the pieces of a string literal. -/
def StringPart.texts (parts : List StringPart) : List Char :=
  parts.flatMap fun part => part.text.toList

/-- What a string literal of a text looks like: a quote, pieces one after the
other, and the quote again. -/
structure Token.Literal (whole : List Char) (t : Token) (quote : Char) : Prop where
  quote_eq : quote = '"' ∨ quote = '\''
  lexeme_eq : t.lexeme.toList = quote :: StringPart.texts t.parts ++ [quote]
  parts_covers : ∀ part ∈ t.parts, part.span.Covers whole part.text.toList
  parts_inOrder : InOrder (t.span.start.offset + 1) (t.span.stop.offset - 1)
    (t.parts.map (·.span.extent))

/-- A token that stands in a text where it says it does. -/
structure Token.Stands (whole : List Char) (t : Token) : Prop where
  covers : t.span.Covers whole t.lexeme.toList
  spelled : ∀ {text}, t.kind.spelling? = some text → t.lexeme = text
  literal : t.kind = .string → ∃ quote, t.Literal whole quote

namespace Token

variable (file : Option String)

theorem texts_placeParts (p : Position) (pieces : List Scan.Piece) :
    StringPart.texts (placeParts file p pieces) = Scan.piecesText pieces := by
  induction pieces generalizing p with
  | nil => rfl
  | cons piece rest ih =>
    obtain ⟨kind, text⟩ := piece
    show (String.ofList text).toList ++ StringPart.texts (placeParts file (p.after text) rest)
      = text ++ Scan.piecesText rest
    rw [ih, String.toList_ofList]

/-- Pieces lie one after the other. -/
theorem placeParts_inOrder (p : Position) {pieces : List Scan.Piece}
    (h : ∀ piece ∈ pieces, piece.2 ≠ []) :
    InOrder p.offset (p.offset + width (Scan.piecesText pieces))
      ((placeParts file p pieces).map (·.span.extent)) := by
  induction pieces generalizing p with
  | nil => exact Nat.le_add_right _ _
  | cons piece rest ih =>
    obtain ⟨kind, text⟩ := piece
    rw [List.forall_mem_cons] at h
    have hwidth : width (Scan.piecesText ((kind, text) :: rest))
        = width text + width (Scan.piecesText rest) := width_append text _
    have hafter : (p.after text).offset = p.offset + width text := Position.offset_after p text
    refine ⟨Nat.le_refl _, ?_, ?_⟩
    · have hpos : 0 < width text := width_pos h.1
      show p.offset < (p.after text).offset
      omega
    · have := ih (p.after text) h.2
      rw [hwidth, ← Nat.add_assoc, ← hafter]
      exact this

theorem placeParts_covers {before after : List Char} (pieces : List Scan.Piece) :
    ∀ part ∈ placeParts file (({} : Position).after before) pieces,
      part.span.Covers (before ++ Scan.piecesText pieces ++ after) part.text.toList := by
  induction pieces generalizing before with
  | nil => exact fun part h => absurd h List.not_mem_nil
  | cons piece rest ih =>
    obtain ⟨kind, text⟩ := piece
    intro part h
    have hwhole : before ++ Scan.piecesText ((kind, text) :: rest) ++ after
        = before ++ text ++ Scan.piecesText rest ++ after := by
      simp [Scan.piecesText]
    rw [hwhole]
    rcases List.mem_cons.1 h with rfl | h
    · refine ⟨before, Scan.piecesText rest ++ after, ?_, rfl, ?_⟩
      · rw [String.toList_ofList, List.append_assoc (before ++ text)]
      · rw [String.toList_ofList]
    · rw [← Position.after_append] at h
      exact ih part h

/-- A word that is a string literal is one at its place in the text. -/
theorem ofWord_literal {before : List Char} {quote : Char} {w : Scan.Word} (hq : w.Quoted quote) :
    (ofWord file (({} : Position).after before) w).Literal (before ++ (w.lexeme ++ w.rest))
      quote := by
  have hwidth := hq.width_quote
  have htake : w.lexeme.take 1 = [quote] := by rw [hq.lexeme_eq]; rfl
  have hplace : (({} : Position).after before).after (w.lexeme.take 1)
      = ({} : Position).after (before ++ [quote]) := by
    rw [htake, Position.after_append]
  refine ⟨hq.quote_eq, ?_, ?_, ?_⟩
  · show (String.ofList w.lexeme).toList
      = quote :: StringPart.texts (placeParts file _ w.pieces) ++ [quote]
    rw [String.toList_ofList, texts_placeParts, hq.lexeme_eq]
  · have hwhole : before ++ (w.lexeme ++ w.rest)
        = before ++ [quote] ++ Scan.piecesText w.pieces ++ (quote :: w.rest) := by
      rw [hq.lexeme_eq]
      simp
    show ∀ part ∈ placeParts file _ w.pieces, _
    rw [hplace, hwhole]
    exact placeParts_covers file w.pieces
  · generalize hp : ({} : Position).after before = p
    have hwhole : width w.lexeme = 1 + (width (Scan.piecesText w.pieces) + 1) := by
      rw [hq.lexeme_eq, List.cons_append, width, width_append, hwidth, width, width, hwidth]
    have hopen : (p.after [quote]).offset = p.offset + 1 := by
      rw [Position.offset_after, width, width, hwidth]
    have hclose : (p.after w.lexeme).offset = p.offset + width w.lexeme :=
      Position.offset_after _ _
    have hin := placeParts_inOrder file (p.after [quote]) hq.pieces_ne_nil
    show InOrder (p.offset + 1) ((p.after w.lexeme).offset - 1)
      ((placeParts file (p.after (w.lexeme.take 1)) w.pieces).map (·.span.extent))
    rw [htake]
    exact hin.widen (by omega) (by omega)

/-- A word that was split off a text stands in it. -/
theorem ofWord_stands {before cs : List Char} {c : Char} {w : Scan.Word}
    (h : Scan.takeWord c cs = .ok w) :
    (ofWord file (({} : Position).after before) w).Stands (before ++ (c :: cs)) := by
  rw [← (Scan.takeWord_append h).1]
  refine ⟨⟨before, w.rest, ?_, rfl, ?_⟩, Scan.takeWord_spelling h, fun hk => ?_⟩
  · show before ++ (String.ofList w.lexeme).toList ++ w.rest = _
    rw [String.toList_ofList, List.append_assoc]
  · show _ = Position.after _ (String.ofList w.lexeme).toList
    rw [String.toList_ofList]
    rfl
  · exact ⟨c, ofWord_literal file (Scan.takeWord_quoted h hk)⟩

end Token

-- ================================================================= runs

/-- Every token of a text is a word that was split off it, at its place. -/
theorem lexFrom_words (file : Option String) (before cs : List Char) :
    ∀ t ∈ (lexFrom file (({} : Position).after before) cs).tokens,
      ∃ front c rest w, front ++ (c :: rest) = before ++ cs ∧ Scan.takeWord c rest = .ok w ∧
        t = Token.ofWord file (({} : Position).after front) w := by
  generalize hp : ({} : Position).after before = p
  fun_induction lexFrom file p cs generalizing before with
  | case1 => exact fun t h => absurd h List.not_mem_nil
  | case2 => exact fun t h => absurd h List.not_mem_nil
  | case3 => exact fun t h => absurd h List.not_mem_nil
  | case4 p cs text c rest htrivia w hw ih =>
    subst hp
    have hcs : text ++ (c :: rest) = cs := by
      have := Scan.takeTrivia_whole cs
      rwa [htrivia] at this
    have hword := (Scan.takeWord_append hw).1
    intro t h
    rcases List.mem_cons.1 h with rfl | h
    · exact ⟨before ++ text, c, rest, w, by rw [List.append_assoc, hcs], hw,
        by rw [Position.after_append]⟩
    · have := ih (before ++ text ++ w.lexeme) (by rw [Position.after_append, Position.after_append])
        t h
      rwa [List.append_assoc, hword, List.append_assoc, hcs] at this

/-- The tokens of a text stand in it. -/
theorem lexFrom_stands (file : Option String) (before cs : List Char) :
    ∀ t ∈ (lexFrom file (({} : Position).after before) cs).tokens, t.Stands (before ++ cs) := by
  intro t h
  obtain ⟨front, c, rest, w, hwhole, hw, rfl⟩ := lexFrom_words file before cs t h
  rw [← hwhole]
  exact Token.ofWord_stands file hw

/-- The tokens of a text follow each other in it. -/
theorem lexFrom_inOrder (file : Option String) (p : Position) (cs : List Char) :
    InOrder p.offset (p.offset + width cs) ((lexFrom file p cs).tokens.map (·.span.extent)) := by
  fun_induction lexFrom file p cs with
  | case1 => exact Nat.le_add_right _ _
  | case2 => exact Nat.le_add_right _ _
  | case3 => exact Nat.le_add_right _ _
  | case4 p cs text c rest htrivia w hw ih =>
    have hcs : text ++ (c :: rest) = cs := by
      have := Scan.takeTrivia_whole cs
      rwa [htrivia] at this
    obtain ⟨hword, hne⟩ := Scan.takeWord_append hw
    have hpos := width_pos hne
    rw [← hcs, width_append, ← hword, width_append]
    rw [Position.offset_after, Position.offset_after] at ih
    refine ⟨?_, ?_, ?_⟩
    · show p.offset ≤ (p.after text).offset
      rw [Position.offset_after]
      omega
    · show (p.after text).offset < ((p.after text).after w.lexeme).offset
      rw [Position.offset_after _ w.lexeme]
      omega
    · show InOrder ((p.after text).after w.lexeme).offset _ _
      rw [Position.offset_after, Position.offset_after]
      exact ih.widen (Nat.le_refl _) (by omega)

/-- The end of a text is after all of it. -/
theorem lexFrom_stop {file : Option String} {p : Position} {cs : List Char} {stop : Span}
    (h : (lexFrom file p cs).ending = .ok stop) : stop = ⟨p.after cs, p.after cs, file⟩ := by
  fun_induction lexFrom file p cs with
  | case1 => cases h
  | case2 p cs text htrivia =>
    have hcs := Scan.takeTrivia_whole cs
    rw [htrivia, Scan.Trivia.whole, List.append_nil] at hcs
    rw [← hcs]
    exact (Except.ok.inj h).symm
  | case3 => cases h
  | case4 p cs text c rest htrivia w hw ih =>
    have hcs := Scan.takeTrivia_whole cs
    rw [htrivia, Scan.Trivia.whole] at hcs
    rw [← hcs, ← (Scan.takeWord_append hw).1, Position.after_append, Position.after_append]
    exact ih h

-- ============================================================== programs

/-- A result that passes a check is there. -/
theorem exists_ok_of_any {ε α : Type} {x : Except ε α} {p : α → Bool}
    (h : x.toOption.any p = true) : ∃ a, x = .ok a ∧ p a = true := by
  cases x with
  | error => cases h
  | ok a => exact ⟨a, rfl, h⟩

/-- A program without a faulty word is read to its end. -/
theorem tokenize_eq_ok {file : Option String} {source : String} {list : TokenList}
    (h : tokenize file source = .ok list) :
    list.tokens = (lex file source).tokens ∧ (lex file source).ending = .ok list.stop := by
  unfold tokenize at h
  dsimp only at h
  cases hend : (lex file source).ending with
  | error e =>
    rw [hend] at h
    cases h
  | ok stop =>
    rw [hend] at h
    cases h
    exact ⟨rfl, rfl⟩

/-- The tokens of a program follow each other, each standing in the text, and
the end is after all of it. -/
theorem tokenize_places {file : Option String} {source : String} {list : TokenList}
    (h : tokenize file source = .ok list) :
    InOrder 0 (width source.toList) (list.tokens.map (·.span.extent)) ∧
      (∀ t ∈ list.tokens, t.Stands source.toList) ∧
      list.stop.stop = ({} : Position).after source.toList := by
  obtain ⟨htokens, hend⟩ := tokenize_eq_ok h
  rw [htokens]
  refine ⟨?_, lexFrom_stands file [] source.toList, ?_⟩
  · have := lexFrom_inOrder file {} source.toList
    rwa [Nat.zero_add] at this
  · rw [lexFrom_stop hend]

end SamScript
