/-
Quoted texts. A text that is put in quotes is a string literal, and the pieces of that
literal stand for the text again: a backslash, a quote and a line feed are escaped, and
whatever else there is in a text, a carriage return or a zero character among it, stands
between quotes as it is (`exists_pieces`).
-/
import SamScript.Proofs.Token.Lexeme
import SamScript.Value.Literal
import SamScript.Value.Render

namespace SamScript

open Scan

namespace Literal

/-- What a piece of a string literal stands for. -/
def decodePiece : Piece → List Char
  | (.fragment, text) => text
  | (.escape, text) => [decodeEscape (text.drop 1)]

/-- What the pieces of a string literal stand for together. -/
def decodePieces (ps : List Piece) : List Char :=
  ps.flatMap decodePiece

variable {quote c e : Char} {ps : List Piece}

/-- A plain character in front of pieces belongs to the first of them, or is one itself. -/
theorem exists_plain (h : Pieces quote ps) (hc : isPlain quote c = true) :
    ∃ qs, Pieces quote qs ∧ piecesText qs = c :: piecesText ps ∧
      decodePieces qs = c :: decodePieces ps := by
  have hone : ∀ d ∈ [c], isPlain quote d = true := List.forall_mem_singleton.2 hc
  cases h with
  | nil => exact ⟨[(.fragment, [c])], .fragment nofun hone nofun .nil, rfl, rfl⟩
  | @fragment text ps hne hplain hhead hps =>
    exact ⟨(.fragment, c :: text) :: ps,
      .fragment nofun (List.forall_mem_cons.2 ⟨hc, hplain⟩) hhead hps, rfl, rfl⟩
  | @escape tail ps htail hps =>
    refine ⟨(.fragment, [c]) :: (.escape, '\\' :: tail) :: ps,
      .fragment nofun hone (fun p hp => ?_) (.escape htail hps), rfl, rfl⟩
    rw [← Option.mem_some.1 hp]

/-- An escape sequence in front of pieces is one by itself, if it ends where it does
whatever comes behind it. -/
theorem exists_escaped (h : Pieces quote ps) {tail : List Char}
    (htail : ∀ next, IsEscape tail next) (hc : decodeEscape tail = c) :
    ∃ qs, Pieces quote qs ∧ piecesText qs = '\\' :: tail ++ piecesText ps ∧
      decodePieces qs = c :: decodePieces ps := by
  refine ⟨(.escape, '\\' :: tail) :: ps, .escape (htail _) h, rfl, ?_⟩
  have hdecode : decodePiece (.escape, '\\' :: tail) = [c] := by
    show [decodeEscape tail] = [c]
    rw [hc]
  rw [decodePieces, List.flatMap_cons, hdecode]
  rfl

/-- A character that a single letter escapes. -/
theorem exists_escape (h : Pieces quote ps) (he : e ≠ '\n' ∧ e ≠ 'x' ∧ e ≠ 'u')
    (hc : escapeChar? e = some c) :
    ∃ qs, Pieces quote qs ∧ piecesText qs = ['\\', e] ++ piecesText ps ∧
      decodePieces qs = c :: decodePieces ps :=
  exists_escaped h (fun _ => .one he.1 he.2.1 he.2.2) (by rw [decodeEscape, hc])

/-- Between its quotes a quoted text is pieces that stand for it. -/
theorem exists_pieces (text : List Char) :
    ∃ ps, Pieces '"' ps ∧ piecesText ps = text.flatMap Value.quotedChar ∧
      decodePieces ps = text := by
  induction text with
  | nil => exact ⟨[], .nil, rfl, rfl⟩
  | cons c text ih =>
    obtain ⟨ps, hps, htext, hdecode⟩ := ih
    rw [List.flatMap_cons, ← htext]
    rw [← hdecode]
    by_cases hmark : c = '\\' ∨ c = '"'
    · rw [Value.quotedChar, if_pos hmark]
      rcases hmark with rfl | rfl
      · exact exists_escape hps (by decide) rfl
      · exact exists_escape hps (by decide) rfl
    · by_cases hline : c = '\n'
      · subst hline
        exact exists_escape hps (by decide) rfl
      · rw [Value.quotedChar, if_neg hmark, if_neg hline]
        refine exists_plain hps ?_
        rw [not_or] at hmark
        simp [isPlain, hmark.1, hmark.2, hline]

/-- A quoted text as a string literal. -/
theorem exists_literal (text : String) :
    ∃ literal : StringLiteral, literal.text = (Value.quote text).toList ∧
      decodePieces literal.pieces = text.toList := by
  obtain ⟨ps, hps, htext, hdecode⟩ := exists_pieces text.toList
  refine ⟨⟨'"', ps, .inl rfl, hps⟩, ?_, hdecode⟩
  rw [Value.quote, String.toList_ofList, ← htext]
  rfl

end Literal

end SamScript
