/-
The lexical grammar: how far the next word of a program reaches. Nothing
here knows about places; every function splits its input in two, so that what
it took and what it left always make up the input again (`scan_append`).
-/
import SamScript.Decimal.Syntax
import SamScript.Reading
import SamScript.Text.Class
import SamScript.Token.Basic

namespace SamScript.Scan

open Text Decimal

/-- What can be wrong with the words of a program. -/
inductive Fault where
  | unexpectedCharacter (c : Char)
  | unterminatedString
  | unterminatedComment
  | invalidNumber (text : String)
  deriving DecidableEq, Repr

-- =============================================================== trivia

def isBlank (c : Char) : Bool :=
  c = ' ' || c = '\t' || c = '\r' || c = '\n'

/-- Splits off the inside of a block comment and its end; nothing if the
comment does not end. -/
def takeBlockComment : List Char → Option (List Char × List Char)
  | '*' :: '/' :: rest => some (['*', '/'], rest)
  | c :: rest => (takeBlockComment rest).map fun (body, rest) => (c :: body, rest)
  | [] => none

theorem takeBlockComment_append {cs body rest : List Char}
    (h : takeBlockComment cs = some (body, rest)) : body ++ rest = cs := by
  induction cs using takeBlockComment.induct generalizing body rest with
  | case1 r => cases h; rfl
  | case2 c r hne ih =>
    rw [takeBlockComment] at h
    · obtain ⟨⟨b, t⟩, hb, he⟩ := Option.map_eq_some_iff.1 h
      cases he
      simp [ih hb]
    · exact hne
  | case3 => cases h

theorem length_of_takeBlockComment {cs body rest : List Char}
    (h : takeBlockComment cs = some (body, rest)) : rest.length ≤ cs.length := by
  rw [← takeBlockComment_append h]
  simp

/-- What stands before the next word. -/
inductive Trivia where
  /-- Blanks and complete comments, and the text after them. -/
  | skipped (text rest : List Char)
  /-- Blanks and complete comments, and a comment that does not end. -/
  | unterminated (text comment : List Char)

/-- Puts more text in front of trivia. -/
def Trivia.behind (before : List Char) : Trivia → Trivia
  | .skipped text rest => .skipped (before ++ text) rest
  | .unterminated text comment => .unterminated (before ++ text) comment

/-- Splits off blanks and comments. -/
def takeTrivia (cs : List Char) : Trivia :=
  match cs with
  | '/' :: '/' :: rest =>
    (takeTrivia (rest.dropWhile (· ≠ '\n'))).behind ('/' :: '/' :: rest.takeWhile (· ≠ '\n'))
  | '/' :: '*' :: rest =>
    match _h : takeBlockComment rest with
    | some (body, rest') => (takeTrivia rest').behind ('/' :: '*' :: body)
    | none => .unterminated [] ('/' :: '*' :: rest)
  | c :: rest => if isBlank c then (takeTrivia rest).behind [c] else .skipped [] (c :: rest)
  | [] => .skipped [] []
termination_by cs.length
decreasing_by
  · have := length_dropWhile_le (· ≠ '\n') rest
    simp only [List.length_cons]
    omega
  · have := length_of_takeBlockComment _h
    simp only [List.length_cons]
    omega
  · simp

/-- The text that trivia was split from. -/
def Trivia.whole : Trivia → List Char
  | .skipped text rest => text ++ rest
  | .unterminated text comment => text ++ comment

theorem Trivia.whole_behind (before : List Char) (t : Trivia) :
    (t.behind before).whole = before ++ t.whole := by
  cases t <;> simp [behind, whole]

theorem takeTrivia_whole (cs : List Char) : (takeTrivia cs).whole = cs := by
  fun_induction takeTrivia cs with
  | case1 rest ih =>
    rw [Trivia.whole_behind, ih]
    simp [List.takeWhile_append_dropWhile]
  | case2 rest body rest' h ih =>
    rw [Trivia.whole_behind, ih, ← takeBlockComment_append h]
    simp
  | case3 => simp [Trivia.whole]
  | case4 c rest _ _ _ ih => rw [Trivia.whole_behind, ih]; simp
  | case5 => simp [Trivia.whole]
  | case6 => rfl

-- ============================================================== strings

/-- Splits off at most `n` leading characters of a class. -/
def takeUpTo (n : Nat) (p : Char → Bool) (cs : List Char) : List Char × List Char :=
  ((cs.take n).takeWhile p, cs.drop ((cs.take n).takeWhile p).length)

theorem takeUpTo_append (n : Nat) (p : Char → Bool) (cs : List Char) :
    (takeUpTo n p cs).1 ++ (takeUpTo n p cs).2 = cs := by
  have h : (cs.take n).takeWhile p <+: cs :=
    (List.takeWhile_prefix p).trans (List.take_prefix n cs)
  obtain ⟨t, ht⟩ := h
  have hd : cs.drop ((cs.take n).takeWhile p).length = t := by
    conv => lhs; arg 2; rw [← ht]
    exact List.drop_left
  simp only [takeUpTo, hd]
  exact ht

/-- Splits off what belongs to an escape sequence after its backslash. A
line feed belongs to none. -/
def takeEscape : List Char → List Char × List Char
  | [] => ([], [])
  | '\n' :: rest => ([], '\n' :: rest)
  | 'x' :: rest =>
    ('x' :: (takeUpTo 2 isHexDigit rest).1, (takeUpTo 2 isHexDigit rest).2)
  | 'u' :: '\x7b' :: rest =>
    match rest.dropWhile isHexDigit with
    | '\x7d' :: after => ('u' :: '\x7b' :: rest.takeWhile isHexDigit ++ ['\x7d'], after)
    | after => ('u' :: '\x7b' :: rest.takeWhile isHexDigit, after)
  | 'u' :: rest =>
    ('u' :: (takeUpTo 4 isHexDigit rest).1, (takeUpTo 4 isHexDigit rest).2)
  | c :: rest => ([c], rest)

theorem takeEscape_append (cs : List Char) : (takeEscape cs).1 ++ (takeEscape cs).2 = cs := by
  unfold takeEscape
  split
  · rfl
  · rfl
  · simp [takeUpTo_append]
  · rename_i rest
    have h := List.takeWhile_append_dropWhile (p := isHexDigit) (l := rest)
    split
    · rename_i after ha
      rw [ha] at h
      simp [h]
    · simp [h]
  · simp [takeUpTo_append]
  · rfl

theorem length_takeEscape (cs : List Char) : (takeEscape cs).2.length ≤ cs.length := by
  conv => rhs; rw [← takeEscape_append cs]
  simp

/-- A piece of a string literal without its place. -/
abbrev Piece := PieceKind × List Char

/-- The characters that stand for themselves between two quotes. -/
def isPlain (quote c : Char) : Bool :=
  c ≠ quote && c ≠ '\n' && c ≠ '\\'

/-- A fragment as a piece; an empty one is none. -/
def fragment (text : List Char) : List Piece :=
  if text.isEmpty then [] else [(.fragment, text)]

/-- Splits off the pieces of a string literal and its closing quote. If the
literal does not end on its line, the answer is the text up to where that
showed. -/
def takePieces (quote : Char) (cs : List Char) : Except (List Char) (List Piece × List Char) :=
  match _h : cs.dropWhile (isPlain quote) with
  | [] => .error (cs.takeWhile (isPlain quote))
  | '\\' :: after =>
    match takePieces quote (takeEscape after).2 with
    | .error consumed =>
      .error (cs.takeWhile (isPlain quote) ++ '\\' :: (takeEscape after).1 ++ consumed)
    | .ok (pieces, rest) =>
      .ok (fragment (cs.takeWhile (isPlain quote))
        ++ (.escape, '\\' :: (takeEscape after).1) :: pieces, rest)
  | c :: after =>
    if c = quote then .ok (fragment (cs.takeWhile (isPlain quote)), after)
    else .error (cs.takeWhile (isPlain quote))
termination_by cs.length
decreasing_by
  have h₁ := length_of_dropWhile_eq _h
  have h₂ := length_takeEscape after
  omega

/-- The text of pieces. -/
def piecesText (pieces : List Piece) : List Char :=
  pieces.flatMap Prod.snd

theorem piecesText_fragment (text : List Char) : piecesText (fragment text) = text := by
  unfold fragment piecesText
  split
  · rename_i h
    simp [List.isEmpty_iff.1 h]
  · simp

theorem takePieces_append {quote : Char} {cs rest : List Char} {pieces : List Piece}
    (h : takePieces quote cs = .ok (pieces, rest)) :
    piecesText pieces ++ quote :: rest = cs := by
  fun_induction takePieces quote cs generalizing pieces rest with
  | case1 => cases h
  | case2 => cases h
  | case3 cs after hd ps r hr ih =>
    cases h
    have hp := List.takeWhile_append_dropWhile (p := isPlain quote) (l := cs)
    have he := takeEscape_append after
    have ht := piecesText_fragment (cs.takeWhile (isPlain quote))
    simp only [piecesText] at ht ih ⊢
    rw [hd] at hp
    conv => rhs; rw [← hp, ← he]
    simp [ht, ← ih hr]
  | case4 cs after _ hd =>
    cases h
    have hp := List.takeWhile_append_dropWhile (p := isPlain quote) (l := cs)
    rw [hd] at hp
    rw [piecesText_fragment]
    exact hp
  | case5 => cases h

-- ============================================================== numbers

/-- The characters of a name after the first. -/
def isWordChar (c : Char) : Bool :=
  isAlphanumeric c || c = '_'

/-- The characters that a name begins with. -/
def isWordStart (c : Char) : Bool :=
  isLetter c || c = '_'

/-- Splits off an exponent, its letter included. A letter `e` that no digits
follow, after a sign or not, is an error; the answer is then the letter and
the sign. -/
def takeExponent : List Char → Except (List Char) (List Char × List Char)
  | [] => .ok ([], [])
  | e :: rest =>
    if e = 'e' ∨ e = 'E' then
      match takeUpTo 1 (fun c => c = '+' || c = '-') rest with
      | (sign, body) =>
        if (body.takeWhile isDigit).isEmpty then .error (e :: sign)
        else .ok (e :: sign ++ body.takeWhile isDigit, body.dropWhile isDigit)
    else .ok ([], e :: rest)

theorem takeExponent_append {cs exponent rest : List Char}
    (h : takeExponent cs = .ok (exponent, rest)) : exponent ++ rest = cs := by
  unfold takeExponent at h
  split at h
  · cases h; rfl
  · rename_i e r
    split at h
    · have hs := takeUpTo_append 1 (fun c => c = '+' || c = '-') r
      generalize takeUpTo 1 (fun c => c = '+' || c = '-') r = p at h hs
      obtain ⟨sign, body⟩ := p
      simp only at h hs
      split at h
      · cases h
      · cases h
        rw [← hs]
        simp [List.takeWhile_append_dropWhile]
    · cases h; rfl

/-- Splits off a number. If an exponent lacks its digits, the answer is the
text up to there; if a name is glued to the number, the text with the name. -/
def takeNumber (cs : List Char) : Except (List Char) (List Char × List Char) :=
  match takeFraction (cs.dropWhile isDigit) with
  | (fraction, tail) =>
    match takeExponent tail with
    | .error consumed => .error (cs.takeWhile isDigit ++ fraction ++ consumed)
    | .ok (exponent, rest) =>
      match rest with
      | c :: _ =>
        if isWordStart c then
          .error (cs.takeWhile isDigit ++ fraction ++ exponent ++ rest.takeWhile isWordChar)
        else .ok (cs.takeWhile isDigit ++ fraction ++ exponent, rest)
      | [] => .ok (cs.takeWhile isDigit ++ fraction ++ exponent, rest)

theorem takeNumber_append {cs number rest : List Char}
    (h : takeNumber cs = .ok (number, rest)) : number ++ rest = cs := by
  unfold takeNumber at h
  have hf := takeFraction_append (cs.dropWhile isDigit)
  generalize takeFraction (cs.dropWhile isDigit) = p at h hf
  obtain ⟨fraction, tail⟩ := p
  simp only at h hf
  split at h
  · cases h
  · rename_i exponent r he
    have hr := takeExponent_append he
    have hc : cs.takeWhile isDigit ++ fraction ++ exponent ++ r = cs := by
      rw [List.append_assoc, List.append_assoc, hr, hf, List.takeWhile_append_dropWhile]
    split at h
    · split at h
      · cases h
      · cases h; exact hc
    · cases h; exact hc

-- ============================================================== symbols

/-- The operator or punctuation mark at the front of a text: the longer of
two that fit. -/
def symbol? : List Char → Option (TokenKind × List Char × List Char)
  | '=' :: '>' :: rest => some (.doubleArrow, ['=', '>'], rest)
  | '=' :: '=' :: rest => some (.eq, ['=', '='], rest)
  | '!' :: '=' :: rest => some (.ne, ['!', '='], rest)
  | '<' :: '=' :: rest => some (.le, ['<', '='], rest)
  | '>' :: '=' :: rest => some (.ge, ['>', '='], rest)
  | '&' :: '&' :: rest => some (.and, ['&', '&'], rest)
  | '|' :: '|' :: rest => some (.or, ['|', '|'], rest)
  | '+' :: rest => some (.plus, ['+'], rest)
  | '-' :: rest => some (.minus, ['-'], rest)
  | '*' :: rest => some (.star, ['*'], rest)
  | '/' :: rest => some (.slash, ['/'], rest)
  | '%' :: rest => some (.percent, ['%'], rest)
  | '<' :: rest => some (.lt, ['<'], rest)
  | '>' :: rest => some (.gt, ['>'], rest)
  | '=' :: rest => some (.assign, ['='], rest)
  | ';' :: rest => some (.semicolon, [';'], rest)
  | ',' :: rest => some (.comma, [','], rest)
  | '.' :: rest => some (.dot, ['.'], rest)
  | '(' :: rest => some (.lparen, ['('], rest)
  | ')' :: rest => some (.rparen, [')'], rest)
  | '[' :: rest => some (.lbracket, ['['], rest)
  | ']' :: rest => some (.rbracket, [']'], rest)
  | '\x7b' :: rest => some (.lbrace, ['\x7b'], rest)
  | '\x7d' :: rest => some (.rbrace, ['\x7d'], rest)
  | _ => none

theorem symbol?_append {cs lexeme rest : List Char} {kind : TokenKind}
    (h : symbol? cs = some (kind, lexeme, rest)) : lexeme ++ rest = cs ∧ lexeme ≠ [] := by
  unfold symbol? at h
  split at h <;> first | (cases h; simp) | cases h

-- ================================================================ words

/-- A word of a program without its place, and the text after it. -/
structure Word where
  kind : TokenKind
  lexeme : List Char
  pieces : List Piece := []
  rest : List Char

/-- What is wrong where a word should be, and the text up to where that
showed. -/
abbrev Failure := Fault × List Char

/-- Splits off the word that begins with `c`. -/
def takeWord (c : Char) (cs : List Char) : Except Failure Word :=
  if c = '"' ∨ c = '\'' then
    match takePieces c cs with
    | .error consumed => .error (.unterminatedString, c :: consumed)
    | .ok (pieces, rest) => .ok ⟨.string, c :: piecesText pieces ++ [c], pieces, rest⟩
  else if isDigit c then
    match takeNumber (c :: cs) with
    | .error consumed => .error (.invalidNumber (String.ofList consumed), consumed)
    | .ok (number, rest) => .ok ⟨.number, number, [], rest⟩
  else if isWordStart c then
    let name := c :: cs.takeWhile isWordChar
    .ok ⟨(TokenKind.keyword? name).getD .identifier, name, [], cs.dropWhile isWordChar⟩
  else
    match symbol? (c :: cs) with
    | some (kind, lexeme, rest) => .ok ⟨kind, lexeme, [], rest⟩
    | none => .error (.unexpectedCharacter c, [c])

theorem takeNumber_ne_nil {c : Char} {cs number rest : List Char} (hc : isDigit c)
    (h : takeNumber (c :: cs) = .ok (number, rest)) : number ≠ [] := by
  have hw : (c :: cs).takeWhile isDigit ≠ [] := by simp [hc]
  unfold takeNumber at h
  generalize takeFraction ((c :: cs).dropWhile isDigit) = p at h
  generalize (c :: cs).takeWhile isDigit = w at h hw
  obtain ⟨fraction, tail⟩ := p
  simp only at h
  split at h
  · cases h
  · split at h
    · split at h
      · cases h
      · cases h; simp [hw]
    · cases h; simp [hw]

/-- A word and what comes after it make up the input, and a word is never
empty. -/
theorem takeWord_append {c : Char} {cs : List Char} {w : Word} (h : takeWord c cs = .ok w) :
    w.lexeme ++ w.rest = c :: cs ∧ w.lexeme ≠ [] := by
  unfold takeWord at h
  split at h
  · split at h
    · cases h
    · rename_i pieces rest hp
      cases h
      simp [← takePieces_append hp]
  · split at h
    · rename_i hd
      split at h
      · cases h
      · rename_i number rest hn
        cases h
        exact ⟨takeNumber_append hn, takeNumber_ne_nil hd hn⟩
    · split at h
      · cases h
        simp [List.takeWhile_append_dropWhile]
      · split at h
        · rename_i hs
          cases h
          exact symbol?_append hs
        · cases h

theorem length_of_takeWord {c : Char} {cs : List Char} {w : Word} (h : takeWord c cs = .ok w) :
    w.rest.length < (c :: cs).length := by
  obtain ⟨ha, hn⟩ := takeWord_append h
  have := List.length_pos_iff.2 hn
  rw [← ha, List.length_append]
  omega

end SamScript.Scan
