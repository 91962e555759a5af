/-
What stands between words. `Gap` says it in the terms of a reader: blanks, line
comments up to a line feed, and block comments up to the first `*/`. The scanner
skips nothing else (`takeTrivia_skipped`), and it skips a gap whole, whatever
comes after it (`takeTrivia_gap`). Only where the text ends may a line comment
do without its line feed (`LastGap`).
-/
import SamScript.Proofs.Token.Pieces

namespace SamScript.Scan

-- ================================================================ grammar

/-- Blanks and complete comments. The line feed behind a line comment is a blank
of its own. -/
inductive Gap : List Char → Prop
  | nil : Gap []
  | blank {c : Char} {rest : List Char} : c ∈ [' ', '\t', '\r', '\n'] → Gap rest → Gap (c :: rest)
  | line {body rest : List Char} : '\n' ∉ body → Gap ('\n' :: rest) →
      Gap ('/' :: '/' :: (body ++ '\n' :: rest))
  | block {body rest : List Char} : ¬ ['*', '/'] <:+: body → Gap rest →
      Gap ('/' :: '*' :: (body ++ '*' :: '/' :: rest))

/-- What can stand behind the last word: a gap, or one with a line comment that
the text ends with. -/
inductive LastGap : List Char → Prop
  | closed {text : List Char} : Gap text → LastGap text
  | cut {text body : List Char} : Gap text → '\n' ∉ body → LastGap (text ++ '/' :: '/' :: body)

theorem isBlank_iff {c : Char} : isBlank c = true ↔ c ∈ [' ', '\t', '\r', '\n'] := by
  simp [isBlank, or_assoc]

namespace Gap

variable {a b : List Char}

theorem append (ha : Gap a) (hb : Gap b) : Gap (a ++ b) := by
  induction ha with
  | nil => exact hb
  | blank hc _ ih => exact .blank hc ih
  | @line body rest hbody _ ih =>
    rw [List.cons_append, List.cons_append, List.append_assoc]
    exact .line hbody ih
  | @block body rest hbody _ ih =>
    rw [List.cons_append, List.cons_append, List.append_assoc]
    exact .block hbody ih

theorem append_last (ha : Gap a) (hb : LastGap b) : LastGap (a ++ b) := by
  cases hb with
  | closed hb => exact .closed (ha.append hb)
  | cut hb hbody =>
    rw [← List.append_assoc]
    exact .cut (ha.append hb) hbody

end Gap

-- =============================================================== comments

theorem not_infix_cons {body : List Char} {c : Char} (hbody : ¬ ['*', '/'] <:+: body)
    (hc : c = '*' → body.head? ≠ some '/') : ¬ ['*', '/'] <:+: c :: body := by
  rw [List.infix_cons_iff]
  rintro (h | h)
  · obtain ⟨rfl, rest, rfl⟩ := List.cons_prefix_cons.1 h
    exact hc rfl rfl
  · exact hbody h

/-- A block comment reaches up to the first `*/`. -/
theorem takeBlockComment_eq_some_iff {cs inside rest : List Char} :
    takeBlockComment cs = some (inside, rest) ↔
      ∃ body, inside = body ++ ['*', '/'] ∧ cs = body ++ '*' :: '/' :: rest ∧
        ¬ ['*', '/'] <:+: body := by
  constructor
  · intro h
    induction cs using takeBlockComment.induct generalizing inside rest with
    | case1 r =>
      cases h
      exact ⟨[], rfl, rfl, fun h => List.cons_ne_nil _ _ (List.infix_nil.1 h)⟩
    | case2 c r hne ih =>
      rw [takeBlockComment] at h
      · obtain ⟨⟨inside, rest⟩, hmore, he⟩ := Option.map_eq_some_iff.1 h
        cases he
        obtain ⟨body, rfl, rfl, hbody⟩ := ih hmore
        refine ⟨c :: body, rfl, rfl, not_infix_cons hbody fun hc hhead => ?_⟩
        obtain ⟨tail, rfl⟩ := List.head?_eq_some_iff.1 hhead
        exact hne _ hc rfl
      · exact hne
    | case3 => cases h
  · rintro ⟨body, rfl, rfl, hbody⟩
    induction body with
    | nil => rfl
    | cons c body ih =>
      rw [List.infix_cons_iff, not_or] at hbody
      rw [List.cons_append, takeBlockComment, ih hbody.2]
      · rfl
      · rintro r rfl hr
        refine hbody.1 (List.cons_prefix_cons.2 ⟨rfl, ?_⟩)
        cases body with
        | nil => cases (List.cons.inj hr).1
        | cons d body =>
          rw [(List.cons.inj hr).1]
          exact ⟨body, rfl⟩

-- ================================================================== trivia

section

variable {cs text rest : List Char}

theorem takeTrivia_blank {c : Char} (hc : isBlank c = true) (cs : List Char) :
    takeTrivia (c :: cs) = (takeTrivia cs).behind [c] := by
  have hslash : c ≠ '/' := by
    rintro rfl
    cases hc
  rw [takeTrivia]
  · rw [if_pos hc]
  · exact fun _ he => absurd he hslash
  · exact fun _ he => absurd he hslash

theorem Trivia.eq_skipped_of_behind {before : List Char} {t : Trivia}
    (h : t.behind before = .skipped text rest) :
    ∃ more, t = .skipped more rest ∧ text = before ++ more := by
  cases t with
  | skipped more rest' =>
    cases h
    exact ⟨more, rfl, rfl⟩
  | unterminated => cases h

/-- Nothing stands before a character that is neither a blank nor the begin of a
comment. -/
theorem takeTrivia_eq_nil_iff {c : Char} : takeTrivia (c :: cs) = .skipped [] (c :: cs) ↔
    isBlank c = false ∧ (c = '/' → ∀ d ∈ cs.head?, d ≠ '/' ∧ d ≠ '*') := by
  have hbehind {before : List Char} {t : Trivia} (hne : before ≠ []) :
      t.behind before ≠ .skipped [] (c :: cs) := by
    cases t with
    | skipped text rest => exact fun he => hne (List.append_eq_nil_iff.1 (Trivia.skipped.inj he).1).1
    | unterminated =>
      intro he
      cases he
  unfold takeTrivia
  split
  · rename_i rest he
    cases he
    exact ⟨fun h => absurd h (hbehind (List.cons_ne_nil _ _)),
      fun h => absurd rfl (h.2 rfl '/' rfl).1⟩
  · rename_i rest he
    cases he
    refine ⟨fun h => ?_, fun h => absurd rfl (h.2 rfl '*' rfl).2⟩
    split at h
    · exact absurd h (hbehind (List.cons_ne_nil _ _))
    · cases h
  · rename_i hline hblock he
    cases he
    split
    · rename_i hc
      rw [hc]
      exact ⟨fun h => absurd h (hbehind (List.cons_ne_nil _ _)), fun h => absurd h.1 (by decide)⟩
    · rename_i hc
      refine ⟨fun _ => ⟨Bool.not_eq_true _ ▸ hc, fun hslash d hd => ?_⟩, fun _ => rfl⟩
      obtain ⟨more, rfl⟩ := List.head?_eq_some_iff.1 hd
      subst hslash
      exact ⟨fun hd => hline more rfl (by rw [hd]), fun hd => hblock more rfl (by rw [hd])⟩
  · rename_i he
    cases he

theorem Trivia.behind_nil (t : Trivia) : t.behind [] = t := by
  cases t <;> rfl

theorem Trivia.behind_behind (a b : List Char) (t : Trivia) :
    (t.behind b).behind a = t.behind (a ++ b) := by
  cases t <;> simp [behind]

/-- A line comment before a gap that begins with its line feed. -/
theorem LastGap.line {body more : List Char} (hbody : '\n' ∉ body) (h : LastGap ('\n' :: more)) :
    LastGap ('/' :: '/' :: (body ++ '\n' :: more)) := by
  generalize hm : '\n' :: more = text at h
  cases h with
  | closed hgap =>
    subst hm
    exact .closed (.line hbody hgap)
  | @cut front comment hgap hcomment =>
    cases front with
    | nil => cases hm
    | cons c front =>
      obtain ⟨rfl, rfl⟩ := List.cons.inj hm
      have := LastGap.cut (.line hbody hgap) hcomment
      rwa [List.cons_append, List.cons_append, List.append_assoc] at this

/-- What is skipped before a word is a gap, and what is skipped before the end
of the text is a last one. -/
theorem takeTrivia_skipped (h : takeTrivia cs = .skipped text rest) :
    (rest ≠ [] → Gap text) ∧ LastGap text := by
  fun_induction takeTrivia cs generalizing text with
  | case1 after ih =>
    obtain ⟨more, hmore, rfl⟩ := Trivia.eq_skipped_of_behind h
    have hrun := takeWhile_eq_iff.1 (⟨rfl, rfl⟩ :
      after.takeWhile (· ≠ '\n') = after.takeWhile (· ≠ '\n') ∧
        after.dropWhile (· ≠ '\n') = after.dropWhile (· ≠ '\n'))
    have hbody : '\n' ∉ after.takeWhile (· ≠ '\n') := fun hmem => by
      have := hrun.2.1 _ hmem
      simp at this
    obtain ⟨hgap, hlast⟩ := ih hmore
    cases hd : after.dropWhile (· ≠ '\n') with
    | nil =>
      rw [hd, takeTrivia] at hmore
      cases hmore
      rw [List.append_nil]
      exact ⟨fun hne => absurd rfl hne, .cut .nil hbody⟩
    | cons c left =>
      -- the comment stopped at a line feed, with which the rest of the gap begins
      have hc : c = '\n' := by
        have := hrun.2.2
        rw [hd] at this
        simpa using this.head
      subst hc
      rw [hd, takeTrivia_blank rfl] at hmore
      obtain ⟨tail, -, rfl⟩ := Trivia.eq_skipped_of_behind hmore
      exact ⟨fun hne => .line hbody (hgap hne), .line hbody hlast⟩
  | case2 after body left hblock ih =>
    obtain ⟨more, hmore, rfl⟩ := Trivia.eq_skipped_of_behind h
    obtain ⟨hgap, hlast⟩ := ih hmore
    obtain ⟨body, rfl, -, hbody⟩ := takeBlockComment_eq_some_iff.1 hblock
    have hfront : Gap ('/' :: '*' :: (body ++ ['*', '/'])) := .block hbody .nil
    exact ⟨fun hne => hfront.append (hgap hne), hfront.append_last hlast⟩
  | case3 => cases h
  | case4 c after _ _ hc ih =>
    obtain ⟨more, hmore, rfl⟩ := Trivia.eq_skipped_of_behind h
    obtain ⟨hgap, hlast⟩ := ih hmore
    have hfront : Gap [c] := .blank (isBlank_iff.1 hc) .nil
    exact ⟨fun hne => hfront.append (hgap hne), hfront.append_last hlast⟩
  | case5 =>
    cases h
    exact ⟨fun _ => .nil, .closed .nil⟩
  | case6 =>
    cases h
    exact ⟨fun _ => .nil, .closed .nil⟩

/-- A gap is skipped whole. -/
theorem takeTrivia_gap (h : Gap text) (cs : List Char) :
    takeTrivia (text ++ cs) = (takeTrivia cs).behind text := by
  induction h with
  | nil => rw [List.nil_append, Trivia.behind_nil]
  | blank hc _ ih =>
    rw [List.cons_append, takeTrivia_blank (isBlank_iff.2 hc), ih, Trivia.behind_behind]
    rfl
  | @line body rest hbody _ ih =>
    have hrun : (body ++ '\n' :: (rest ++ cs)).takeWhile (· ≠ '\n') = body ∧
        (body ++ '\n' :: (rest ++ cs)).dropWhile (· ≠ '\n') = '\n' :: (rest ++ cs) := by
      refine takeWhile_eq_iff.2 ⟨rfl, fun c hc => decide_eq_true fun he => ?_, .cons (by simp)⟩
      exact hbody (he ▸ hc)
    rw [List.cons_append, List.cons_append, List.append_assoc, List.cons_append, takeTrivia,
      hrun.1, hrun.2, ← List.cons_append, ih, Trivia.behind_behind]
    rfl
  | @block body rest hbody _ ih =>
    have hblock : takeBlockComment (body ++ '*' :: '/' :: (rest ++ cs)) =
        some (body ++ ['*', '/'], rest ++ cs) :=
      takeBlockComment_eq_some_iff.2 ⟨body, rfl, rfl, hbody⟩
    rw [List.cons_append, List.cons_append, List.append_assoc, List.cons_append, List.cons_append,
      takeTrivia]
    split
    · rename_i inside left he
      cases hblock.symm.trans he
      rw [ih, Trivia.behind_behind]
      simp
    · rename_i he
      cases hblock.symm.trans he

end

end SamScript.Scan
