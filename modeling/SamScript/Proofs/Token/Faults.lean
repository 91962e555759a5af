/-
Where a text fails to be words. What a scan says it consumed when something is
wrong is a front of what it was given (`takeWord_prefix`), and the run that
failed was at the place it says, so the span of the failure is that of a part
of the text (`tokenize_faults`).
-/
import SamScript.Proofs.Token.Places

namespace SamScript

-- ================================================================= fronts

namespace Scan

open Text Decimal

variable {cs consumed : List Char}

theorem takePieces_prefix {quote : Char} (h : takePieces quote cs = .error consumed) :
    consumed <+: cs := by
  fun_induction takePieces quote cs generalizing consumed with
  | case1 cs hd =>
    cases h
    exact List.takeWhile_prefix _
  | case2 cs after hd consumed' hrest ih =>
    cases h
    have hcs := List.takeWhile_append_dropWhile (p := isPlain quote) (l := cs)
    obtain ⟨rest, hafter⟩ := ih hrest
    have hescape := takeEscape_append after
    rw [← hafter] at hescape
    refine ⟨rest, ?_⟩
    conv => rhs; rw [← hcs, hd, ← hescape]
    simp
  | case3 => cases h
  | case4 => cases h
  | case5 =>
    cases h
    exact List.takeWhile_prefix _

theorem takeExponent_prefix (h : takeExponent cs = .error consumed) : consumed <+: cs := by
  unfold takeExponent at h
  split at h
  · cases h
  · rename_i e rest
    split at h
    · have hsign := takeUpTo_append 1 (fun c => c = '+' || c = '-') rest
      generalize takeUpTo 1 (fun c => c = '+' || c = '-') rest = p at h hsign
      obtain ⟨sign, body⟩ := p
      dsimp only at h hsign
      split at h
      · cases h
        exact ⟨body, by rw [← hsign, List.cons_append]⟩
      · cases h
    · cases h

theorem takeNumber_prefix (h : takeNumber cs = .error consumed) : consumed <+: cs := by
  unfold takeNumber at h
  have hfraction := takeFraction_append (cs.dropWhile isDigit)
  generalize takeFraction (cs.dropWhile isDigit) = p at h hfraction
  obtain ⟨fraction, tail⟩ := p
  dsimp only at h hfraction
  have hcs : cs.takeWhile isDigit ++ fraction ++ tail = cs := by
    rw [List.append_assoc, hfraction, List.takeWhile_append_dropWhile]
  split at h
  · rename_i letters he
    cases h
    obtain ⟨rest, htail⟩ := takeExponent_prefix he
    exact ⟨rest, by rw [List.append_assoc, htail, hcs]⟩
  · rename_i exponent rest he
    have htail := takeExponent_append he
    split at h
    · rename_i c rest
      split at h
      · cases h
        refine ⟨(c :: rest).dropWhile isWordChar, ?_⟩
        rw [List.append_assoc _ (List.takeWhile _ _), List.takeWhile_append_dropWhile,
          List.append_assoc _ exponent, htail, hcs]
      · cases h
    · cases h

/-- What is wrong where a word should be shows in a front of the text. -/
theorem takeWord_prefix {c : Char} {fault : Fault} (h : takeWord c cs = .error (fault, consumed)) :
    consumed <+: c :: cs := by
  unfold takeWord at h
  split at h
  · split at h
    · rename_i hpieces
      cases h
      exact List.cons_prefix_cons.2 ⟨rfl, takePieces_prefix hpieces⟩
    · cases h
  · split at h
    · split at h
      · rename_i hnumber
        cases h
        exact takeNumber_prefix hnumber
      · cases h
    · split at h
      · cases h
      · split at h
        · cases h
        · cases h
          exact ⟨cs, rfl⟩

end Scan

-- ================================================================= spans

/-- A run that fails does so at a part of the text. -/
theorem lexFrom_faults {file : Option String} (before cs : List Char) {e : LexError}
    (h : (lexFrom file (({} : Position).after before) cs).ending = .error e) :
    ∃ part, e.span.Covers (before ++ cs) part := by
  generalize hp : ({} : Position).after before = p at h
  fun_induction lexFrom file p cs generalizing before with
  | case1 p cs text comment htrivia =>
    cases h
    subst hp
    have hcs := Scan.takeTrivia_whole cs
    rw [htrivia, Scan.Trivia.whole] at hcs
    refine ⟨comment, before ++ text, [], ?_, (Position.after_append _ _ _).symm, rfl⟩
    rw [List.append_nil, List.append_assoc, hcs]
  | case2 => cases h
  | case3 p cs text c rest htrivia fault consumed hw =>
    cases h
    subst hp
    have hcs := Scan.takeTrivia_whole cs
    rw [htrivia, Scan.Trivia.whole] at hcs
    obtain ⟨left, hleft⟩ := Scan.takeWord_prefix hw
    refine ⟨consumed, before ++ text, left, ?_, (Position.after_append _ _ _).symm, rfl⟩
    rw [List.append_assoc, hleft, List.append_assoc, hcs]
  | case4 p cs text c rest htrivia w hw ih =>
    subst hp
    have hcs := Scan.takeTrivia_whole cs
    rw [htrivia, Scan.Trivia.whole, ← (Scan.takeWord_append hw).1] at hcs
    have hplace : ({} : Position).after (before ++ text ++ w.lexeme)
        = ((({} : Position).after before).after text).after w.lexeme := by
      rw [Position.after_append, Position.after_append]
    have hrest := ih (before ++ text ++ w.lexeme) hplace h
    rwa [List.append_assoc, List.append_assoc, hcs] at hrest

/-- A text with a faulty word is blamed on a part of it. -/
theorem tokenize_faults {file : Option String} {source : String} {e : LexError}
    (h : tokenize file source = .error e) : ∃ part, e.span.Covers source.toList part := by
  unfold tokenize at h
  dsimp only at h
  cases hend : (lex file source).ending with
  | error e' =>
    rw [hend] at h
    cases h
    exact lexFrom_faults [] source.toList hend
  | ok stop =>
    rw [hend] at h
    cases h

/-- The end of a program covers nothing, after all of its text. -/
theorem tokenize_stop {file : Option String} {source : String} {list : TokenList}
    (h : tokenize file source = .ok list) : list.stop.Covers source.toList [] := by
  rw [lexFrom_stop (tokenize_eq_ok h).2]
  exact ⟨source.toList, [], by rw [List.append_nil, List.append_nil], rfl, rfl⟩

end SamScript
