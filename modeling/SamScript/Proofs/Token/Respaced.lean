/-
What stands between words does not matter. The words of a program can be set apart
anew, with a gap in front of them and one behind each (`Laced`), as long as every gap
behind a word begins with a blank: no scanner goes on over a blank, so each word ends
where it ended, and the gap is skipped whole. The new text has the same tokens in other
places (`lexFrom_laced`).
-/
import SamScript.Proofs.Token.Divide
import SamScript.Proofs.Token.Spelled

namespace SamScript

open Scan

/-- What a token says, wherever it is: its kind, its lexeme, and the kinds and texts of
its parts. -/
def Token.saying (t : Token) : TokenKind × String × List Piece :=
  (t.kind, t.lexeme, t.pieces)

/-- Whether a text is some words with a gap behind each. A gap begins with a blank, if it
is not empty, and only the last one can be empty. -/
inductive Laced : List (List Char) → List Char → Prop
  | nil : Laced [] []
  | cons {word gap text : List Char} {words : List (List Char)} : Gap gap →
      (∀ c ∈ gap.head?, c ∈ [' ', '\t', '\r', '\n']) → (words ≠ [] → gap ≠ []) →
      Laced words text → Laced (word :: words) (word ++ (gap ++ text))

variable {file : Option String} {source : String} {list : TokenList}

/-- Every token is what some lexeme says. -/
theorem tokenize_lexeme (h : tokenize file source = .ok list) :
    ∀ t ∈ list.tokens, ∃ ℓ : Lexeme, ℓ.Fits t := by
  intro t ht
  rw [(tokenize_eq_ok h).1] at ht
  obtain ⟨front, c, rest, w, -, hw, rfl⟩ := lexFrom_words file [] source.toList t ht
  obtain ⟨ℓ, -, hkind, htext, hpieces⟩ := takeWord_lexeme hw
  refine ⟨ℓ, hkind.symm, ?_, ?_⟩
  · rw [htext]
    rfl
  · rw [hpieces]
    exact Token.pieces_placeParts _ _ _

theorem Lexeme.Fits.toList_lexeme {ℓ : Lexeme} {t : Token} (h : ℓ.Fits t) :
    t.lexeme.toList = ℓ.text := by
  rw [h.lexeme, String.toList_ofList]

theorem Lexeme.Fits.saying_eq {ℓ : Lexeme} {t u : Token} (ht : ℓ.Fits t) (hu : ℓ.Fits u) :
    t.saying = u.saying := by
  rw [Token.saying, Token.saying, ht.kind, ht.lexeme, ht.pieces, hu.kind, hu.lexeme, hu.pieces]

/-- A word is split off whole in front of a gap that can stand behind it. -/
theorem Lexeme.splits_laced (ℓ : Lexeme) {gap text : List Char} {words : List (List Char)}
    (hblank : ∀ c ∈ gap.head?, c ∈ [' ', '\t', '\r', '\n']) (hgap : words ≠ [] → gap ≠ [])
    (h : Laced words text) : ℓ.Splits (gap ++ text) := by
  cases gap with
  | cons c gap =>
    have hdivides := divides_of_isBlank (isBlank_iff.2 (hblank c rfl))
    exact ℓ.splits_divided hdivides (gap ++ text)
  | nil =>
    -- without a gap there is no word to come
    obtain rfl : words = [] := by
      cases words with
      | nil => rfl
      | cons => exact absurd rfl (hgap (List.cons_ne_nil _ _))
    cases h
    exact ℓ.splits_spaced fun _ _ hc => nomatch hc

/-- Words that are set apart are read as what they were. The induction is on the tokens
they were read as before. -/
theorem lexFrom_laced (file : Option String) {ts : List Token}
    (hts : ∀ t ∈ ts, ∃ ℓ : Lexeme, ℓ.Fits t) {text : List Char}
    (h : Laced (ts.map (·.lexeme.toList)) text) (p : Position) :
    (∃ stop, (lexFrom file p text).ending = .ok stop) ∧
      (lexFrom file p text).tokens.map Token.saying = ts.map Token.saying := by
  induction ts generalizing text p with
  | nil =>
    cases h
    rw [lexFrom_nil]
    exact ⟨⟨_, rfl⟩, rfl⟩
  | cons t ts ih =>
    obtain ⟨⟨ℓ, hfits⟩, hts⟩ := List.forall_mem_cons.1 hts
    rw [List.map_cons, hfits.toList_lexeme] at h
    cases h with
    | @cons _ gap text _ hgap hblank hne htext =>
      obtain ⟨c, cs, hfront, htrivia, hword⟩ := ℓ.splits_laced hblank hne htext
      obtain ⟨hending, hsaying⟩ := ih hts htext (((p.after []).after ℓ.text).after gap)
      rw [hfront, lexFrom_word file p htrivia hword]
      dsimp only
      rw [lexFrom_gap hgap]
      refine ⟨hending, ?_⟩
      have hnew := (ℓ.fits_ofWord file (p.after []) (gap ++ text)).saying_eq hfits
      show _ :: _ = t.saying :: _
      rw [hnew, hsaying]

/-- The words of a program can be set apart by any blanks and comments, and the program
still has the tokens that it had: of the same kinds, with the same lexemes, and string
literals with the same parts. -/
theorem tokens_outlive_their_spacing (file file' : Option String) (source : String)
    (list : TokenList) (h : tokenize file source = .ok list) (front text : List Char)
    (hfront : Gap front) (htext : Laced (list.tokens.map (·.lexeme.toList)) text) :
    ∃ list', tokenize file' (String.ofList (front ++ text)) = .ok list' ∧
      list'.tokens.map Token.saying = list.tokens.map Token.saying := by
  obtain ⟨⟨stop, hstop⟩, hsaying⟩ :=
    lexFrom_laced file' (tokenize_lexeme h) htext (({} : Position).after front)
  refine ⟨⟨_, stop⟩, ?_, hsaying⟩
  unfold tokenize lex
  dsimp only
  rw [String.toList_ofList, lexFrom_gap hfront, hstop]
  rfl

/-- Comments of both sorts between the words of a program without any gap, a number next to
a point, and a literal that holds what looks like a comment. -/
theorem tokens_outlive_their_spacing_comments :
    let source := "x=1.f+\"//\\n\""
    let front := "//=\n".toList
    let text := "x /*.*/= 1\t.\r\nf\n// é\n+ \"//\\n\" ".toList
    ∃ list, tokenize none source = .ok list ∧
      list.tokens.map (·.lexeme) = ["x", "=", "1", ".", "f", "+", "\"//\\n\""] ∧
      Gap front ∧ Laced (list.tokens.map (·.lexeme.toList)) text ∧
      ∃ list', tokenize none (String.ofList (front ++ text)) = .ok list' ∧
        list'.tokens.map Token.saying = list.tokens.map Token.saying := by
  intro source front text
  have hrun : (tokenize none source).toOption.any (fun list => list.tokens.map (·.lexeme) =
      ["x", "=", "1", ".", "f", "+", "\"//\\n\""]) = true := by
    decide +kernel
  obtain ⟨list, htokens, hlexemes⟩ := exists_ok_of_any hrun
  rw [decide_eq_true_eq] at hlexemes
  have hblank {c : Char} (hc : c ∈ [' ', '\t', '\r', '\n']) : Gap [c] := .blank hc .nil
  have hedge {c : Char} (hc : c ∈ [' ', '\t', '\r', '\n']) (gap : List Char) :
      ∀ d ∈ (c :: gap).head?, d ∈ [' ', '\t', '\r', '\n'] :=
    fun d hd => Option.mem_some.1 hd ▸ hc
  have hfront : Gap front := @Gap.line ['='] _ (by decide) (hblank (by decide))
  have hblock : Gap [' ', '/', '*', '.', '*', '/'] :=
    .blank (by decide) (@Gap.block ['.'] _ (by decide) .nil)
  have hline : Gap ['\n', '/', '/', ' ', 'é', '\n'] :=
    .blank (by decide) (@Gap.line [' ', 'é'] _ (by decide) (hblank (by decide)))
  have hwords : list.tokens.map (·.lexeme.toList) =
      ["x", "=", "1", ".", "f", "+", "\"//\\n\""].map String.toList := by
    rw [← hlexemes, List.map_map]
    rfl
  have htext : Laced (list.tokens.map (·.lexeme.toList)) text := by
    rw [hwords]
    refine @Laced.cons _ _ _ _ hblock (hedge (by decide) _) (by decide) ?_
    refine @Laced.cons _ [' '] _ _ (hblank (by decide)) (hedge (by decide) _) (by decide) ?_
    refine @Laced.cons _ ['\t'] _ _ (hblank (by decide)) (hedge (by decide) _) (by decide) ?_
    refine @Laced.cons _ ['\r', '\n'] _ _ (.blank (by decide) (hblank (by decide)))
      (hedge (by decide) _) (by decide) ?_
    refine @Laced.cons _ _ _ _ hline (hedge (by decide) _) (by decide) ?_
    refine @Laced.cons _ [' '] _ _ (hblank (by decide)) (hedge (by decide) _) (by decide) ?_
    exact @Laced.cons _ [' '] _ _ (hblank (by decide)) (hedge (by decide) _) (by decide) .nil
  exact ⟨list, htokens, hlexemes, hfront, htext,
    tokens_outlive_their_spacing none none source list htokens front text hfront htext⟩

end SamScript
