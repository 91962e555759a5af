/-
What words are spelled with. A word that begins with a digit is split off part by
part, and each part is either absent or one that a `Number` can have, so a number's
word is the text of a `Number` (`takeNumber_spelled`); the other words are names,
marks and literals by what their scanners stop at. So every word that is split off is
what some lexeme says (`takeWord_lexeme`).
-/
import SamScript.Proofs.Token.Lexeme

namespace SamScript

open Scan Decimal

-- ================================================================== numbers

namespace Scan


variable {c : Char} {cs rest text : List Char}

/-- The digits at the front of a text, if there are any. -/
def frontDigits (cs : List Char) (h : cs.takeWhile isDigit ≠ []) : Digits :=
  ⟨cs.takeWhile isDigit, h, List.all_eq_true.1 List.all_takeWhile⟩

theorem takeFraction_spelled (cs : List Char) :
    ∃ fraction : Option Digits,
      (takeFraction cs).1 = fraction.elim [] fun ds => '.' :: ds.text := by
  unfold takeFraction
  split
  · rename_i after
    split
    · exact ⟨none, rfl⟩
    · rename_i hne
      exact ⟨some (frontDigits after fun h => hne (by rw [h]; rfl)), rfl⟩
  · exact ⟨none, rfl⟩

theorem takeExponent_spelled (h : takeExponent cs = .ok (text, rest)) :
    ∃ exponent : Option Exponent, text = exponent.elim [] Exponent.text := by
  unfold takeExponent at h
  split at h
  · cases h
    exact ⟨none, rfl⟩
  · rename_i e after
    by_cases he : e = 'e' ∨ e = 'E'
    · rw [if_pos he] at h
      rcases htake : takeUpTo 1 (fun c => c = '+' || c = '-') after with ⟨sign, body⟩
      obtain ⟨-, hsign, hlength, -⟩ := takeUpTo_eq_iff.1 htake
      rw [htake] at h
      dsimp only at h
      split at h
      · cases h
      · rename_i hne
        cases h
        have hone : sign.head?.toList = sign := by
          rcases sign with _ | ⟨x, _ | ⟨y, more⟩⟩
          · rfl
          · rfl
          · simp at hlength
        have hsign_eq : ∀ c ∈ sign.head?, c = '+' ∨ c = '-' := by
          intro c hc
          simpa using hsign c (List.mem_of_mem_head? hc)
        refine ⟨some ⟨e, sign.head?, frontDigits body fun h => hne (by rw [h]; rfl), he, hsign_eq⟩, ?_⟩
        show e :: sign ++ _ = e :: (sign.head?.toList ++ _)
        rw [hone]
        rfl
    · rw [if_neg he] at h
      cases h
      exact ⟨none, rfl⟩

/-- What is split off as a number is one. -/
theorem takeNumber_spelled (hc : isDigit c = true)
    (h : takeNumber (c :: cs) = .ok (text, rest)) : ∃ k : Number, text = k.text := by
  have hwhole : (c :: cs).takeWhile isDigit ≠ [] := by simp [hc]
  obtain ⟨fraction, hfraction⟩ := takeFraction_spelled ((c :: cs).dropWhile isDigit)
  unfold takeNumber at h
  rcases htake : takeFraction ((c :: cs).dropWhile isDigit) with ⟨taken, tail⟩
  rw [htake] at h hfraction
  dsimp only at h hfraction
  rcases hexponent : takeExponent tail with consumed | ⟨letters, after⟩
  · rw [hexponent] at h
    cases h
  · obtain ⟨exponent, hletters⟩ := takeExponent_spelled hexponent
    have htext : text = (c :: cs).takeWhile isDigit ++ taken ++ letters := by
      rw [hexponent] at h
      dsimp only at h
      split at h
      · split at h
        · cases h
        · cases h
          rfl
      · cases h
        rfl
    refine ⟨⟨frontDigits (c :: cs) hwhole, fraction, exponent⟩, ?_⟩
    rw [htext, hfraction, hletters, List.append_assoc]
    rfl

/-- A word that is a number was split off as one. -/
theorem takeNumber_of_takeWord {w : Word} (h : takeWord c cs = .ok w) (hk : w.kind = .number) :
    isDigit c = true ∧ takeNumber (c :: cs) = .ok (w.lexeme, w.rest) := by
  have hspell : w.kind.spelling? = none := by
    rw [hk]
    rfl
  unfold takeWord at h
  split at h
  · split at h
    · cases h
    · cases h
      cases hk
  · split at h
    · rename_i hdigit
      split at h
      · cases h
      · rename_i number rest hnumber
        cases h
        exact ⟨hdigit, hnumber⟩
    · split at h
      · cases h
        cases hname : TokenKind.keyword? (c :: cs.takeWhile isWordChar) with
        | none =>
          rw [hname] at hk
          cases hk
        | some kind =>
          rw [hname, Option.getD_some, spelling_of_keyword? hname] at hspell
          cases hspell
      · split at h
        · rename_i hsymbol
          cases h
          rw [spelling_of_symbol? hsymbol] at hspell
          cases hspell
        · cases h

-- ==================================================================== words

/-- Every word is what a lexeme says, and the sign of a number is none. -/
theorem takeWord_lexeme {w : Word} (h : takeWord c cs = .ok w) : ∃ ℓ : Lexeme, ℓ ≠ .sign ∧
    ℓ.kind = w.kind ∧ ℓ.text = w.lexeme ∧ ℓ.pieces = w.pieces := by
  have hmark {kind : TokenKind} {lexeme : List Char}
      (hspell : kind.spelling? = some (String.ofList lexeme)) :
      ∃ ℓ : Lexeme, ℓ ≠ .sign ∧ ℓ.kind = kind ∧ ℓ.text = lexeme ∧ ℓ.pieces = [] := by
    refine ⟨.mark kind (by rw [hspell]; rfl), (by rintro ⟨⟩), rfl, ?_, rfl⟩
    rw [Lexeme.text, hspell, Option.getD_some, String.toList_ofList]
  unfold takeWord at h
  split at h
  · rename_i hquote
    split at h
    · cases h
    · rename_i pieces rest hpieces
      cases h
      have hvalid := ((takePieces_eq_ok_iff hquote).1 hpieces).2
      exact ⟨.string ⟨c, pieces, hquote, hvalid⟩, (by rintro ⟨⟩), rfl, rfl, rfl⟩
  · split at h
    · rename_i hdigit
      split at h
      · cases h
      · rename_i number rest hnumber
        cases h
        obtain ⟨k, rfl⟩ := takeNumber_spelled hdigit hnumber
        exact ⟨.number k, (by rintro ⟨⟩), rfl, rfl, rfl⟩
    · split at h
      · rename_i hstart
        cases h
        cases hname : TokenKind.keyword? (c :: cs.takeWhile isWordChar) with
        | none =>
          have hword := List.all_eq_true.1 (List.all_takeWhile (p := isWordChar) (l := cs))
          exact ⟨.name ⟨c, cs.takeWhile isWordChar, hstart, hword, hname⟩, (by rintro ⟨⟩), rfl,
            rfl, rfl⟩
        | some kind => exact hmark (spelling_of_keyword? hname)
      · split at h
        · rename_i hsymbol
          cases h
          exact hmark (spelling_of_symbol? hsymbol)
        · cases h

end Scan

/-- The tokens of a text that are numbers are spelled like numbers. -/
theorem tokenize_number {file : Option String} {source : String} {list : TokenList}
    (h : tokenize file source = .ok list) {t : Token} (ht : t ∈ list.tokens)
    (hk : t.kind = .number) : ∃ k : Number, t.lexeme.toList = k.text := by
  rw [(tokenize_eq_ok h).1] at ht
  obtain ⟨front, c, rest, w, -, hw, rfl⟩ := lexFrom_words file [] source.toList t ht
  obtain ⟨hdigit, hnumber⟩ := takeNumber_of_takeWord hw hk
  obtain ⟨k, hk⟩ := takeNumber_spelled hdigit hnumber
  refine ⟨k, ?_⟩
  rw [← hk]
  exact String.toList_ofList

end SamScript
