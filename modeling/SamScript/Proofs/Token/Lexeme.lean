/-
Words as a program is printed with them, and how they are read again. A
`Lexeme` is a word by what it says: a name that is not reserved, a number
with its parts, a string literal with its pieces, or a mark. Where each lexeme of a
text is split off whole in front of what follows it (`Typeset`), lexemes are read as
one token each (`tokenize_typeset`); printed with one space between them, and none
after the sign of a number, they are (`typeset_join`).
-/
import SamScript.Proofs.Token.Gaps

namespace SamScript

open Scan Decimal

-- ================================================================= lexemes

/-- A name that is no reserved word. -/
structure Name where
  first : Char
  others : List Char
  start : isWordStart first = true
  word : ∀ c ∈ others, isWordChar c = true
  free : TokenKind.keyword? (first :: others) = none

def Name.text (x : Name) : List Char :=
  x.first :: x.others

/-- Some digits, one at least. -/
structure Digits where
  text : List Char
  ne_nil : text ≠ []
  digit : ∀ c ∈ text, isDigit c = true

/-- The exponent of a number. -/
structure Exponent where
  letter : Char
  sign : Option Char
  digits : Digits
  letter_eq : letter = 'e' ∨ letter = 'E'
  sign_eq : ∀ c ∈ sign, c = '+' ∨ c = '-'

def Exponent.text (e : Exponent) : List Char :=
  e.letter :: (e.sign.toList ++ e.digits.text)

/-- A number without its sign. -/
structure Number where
  whole : Digits
  fraction : Option Digits
  exponent : Option Exponent

namespace Number

def fractionText (n : Number) : List Char :=
  n.fraction.elim [] fun ds => '.' :: ds.text

def exponentText (n : Number) : List Char :=
  n.exponent.elim [] Exponent.text

def text (n : Number) : List Char :=
  n.whole.text ++ (n.fractionText ++ n.exponentText)

end Number

/-- A string literal: a quote, pieces, and the quote again. -/
structure StringLiteral where
  quote : Char
  pieces : List Piece
  quote_eq : quote = '"' ∨ quote = '\''
  valid : Pieces quote pieces

def StringLiteral.text (s : StringLiteral) : List Char :=
  s.quote :: piecesText s.pieces ++ [s.quote]

/-- A word of a program. -/
inductive Lexeme where
  /-- A keyword, an operator or a punctuation mark. -/
  | mark (kind : TokenKind) (h : kind.spelling?.isSome)
  /-- The sign of the number after it. -/
  | sign
  | name (x : Name)
  | number (n : Number)
  | string (s : StringLiteral)

namespace Lexeme

def kind : Lexeme → TokenKind
  | .mark kind _ => kind
  | .sign => .minus
  | .name _ => .identifier
  | .number _ => .number
  | .string _ => .string

def text : Lexeme → List Char
  | .mark kind _ => (kind.spelling?.getD "").toList
  | .sign => ['-']
  | .name x => x.text
  | .number n => n.text
  | .string s => s.text

def pieces : Lexeme → List Piece
  | .string s => s.pieces
  | _ => []

/-- What stands between a lexeme and the next one. -/
def gap : Lexeme → List Char
  | .sign => []
  | _ => [' ']

/-- Lexemes as a text. -/
def join : List Lexeme → List Char
  | [] => []
  | [ℓ] => ℓ.text
  | ℓ :: rest => ℓ.text ++ (ℓ.gap ++ join rest)

end Lexeme

-- ================================================================= numbers

/-- Whether a text is at its end or goes on with a space. -/
def Spaced (rest : List Char) : Prop :=
  ∀ c ∈ rest.head?, c = ' '

theorem Spaced.stops {rest : List Char} (h : Spaced rest) {p : Char → Bool} (hp : p ' ' = false) :
    Stops p rest := by
  intro c hc
  rw [h c hc, hp]

theorem Digits.run (ds : Digits) {rest : List Char} (h : Stops isDigit rest) :
    (ds.text ++ rest).takeWhile isDigit = ds.text ∧ (ds.text ++ rest).dropWhile isDigit = rest :=
  takeWhile_eq_iff.2 ⟨rfl, ds.digit, h⟩

/-- The sign of an exponent is split off its digits, whatever comes behind them. -/
theorem Exponent.takeUpTo_sign (e : Exponent) (rest : List Char) :
    takeUpTo 1 (fun c => c = '+' || c = '-') (e.sign.toList ++ (e.digits.text ++ rest)) =
      (e.sign.toList, e.digits.text ++ rest) := by
  have hstops : Stops (fun c => c = '+' || c = '-') (e.digits.text ++ rest) := by
    intro c hc
    obtain ⟨d, ds, hds⟩ := List.exists_cons_of_ne_nil e.digits.ne_nil
    have hd := e.digits.digit d (hds ▸ List.mem_cons_self)
    rw [hds] at hc
    obtain rfl : d = c := Option.some.inj hc
    have hsign : isDigit '+' = false ∧ isDigit '-' = false := by decide
    rw [Bool.or_eq_false_iff, decide_eq_false_iff_not, decide_eq_false_iff_not]
    refine ⟨fun he => ?_, fun he => ?_⟩
    · rw [he, hsign.1] at hd
      cases hd
    · rw [he, hsign.2] at hd
      cases hd
  refine takeUpTo_eq_iff.2 ⟨rfl, fun c hc => ?_, ?_, fun _ => hstops⟩
  · simpa using e.sign_eq c (by simpa using hc)
  · cases e.sign <;> simp

namespace Number

variable {rest : List Char}

/-- No digit and no point comes up where an exponent can. -/
theorem stops_exponentText (n : Number) (hrest : Spaced rest) :
    Stops (fun c => isDigit c || c = '.') (n.exponentText ++ rest) := by
  unfold exponentText
  cases n.exponent with
  | none => exact hrest.stops (by decide)
  | some e =>
    refine .cons ?_
    rcases e.letter_eq with h | h <;> rw [h] <;> decide

theorem takeExponent_eq (n : Number) (hrest : Spaced rest) :
    takeExponent (n.exponentText ++ rest) = .ok (n.exponentText, rest) := by
  unfold exponentText
  cases n.exponent with
  | none =>
    cases rest with
    | nil => rfl
    | cons c rest =>
      have hc : c = ' ' := hrest c rfl
      subst hc
      rfl
  | some e =>
    have hdigits := e.digits.run (hrest.stops (by decide))
    show takeExponent (e.letter :: (e.sign.toList ++ e.digits.text) ++ rest) = _
    rw [List.cons_append, List.append_assoc, takeExponent, if_pos e.letter_eq, e.takeUpTo_sign]
    dsimp only
    rw [hdigits.1, hdigits.2, if_neg (by simpa using e.digits.ne_nil)]
    rfl

theorem takeFraction_eq (n : Number) (hrest : Spaced rest) :
    takeFraction (n.fractionText ++ (n.exponentText ++ rest)) =
      (n.fractionText, n.exponentText ++ rest) := by
  have hstops := n.stops_exponentText hrest
  unfold fractionText
  cases n.fraction with
  | none =>
    show takeFraction (n.exponentText ++ rest) = ([], n.exponentText ++ rest)
    rw [takeFraction]
    intro after hafter
    rw [hafter] at hstops
    exact absurd hstops.head (by decide)
  | some ds =>
    have hdigits := ds.run (hstops.mono fun c hc => (Bool.or_eq_false_iff.1 hc).1)
    show takeFraction ('.' :: (ds.text ++ (n.exponentText ++ rest))) = _
    rw [takeFraction, hdigits.1, hdigits.2, if_neg (by simpa using ds.ne_nil)]
    rfl

/-- A number is split off whole. -/
theorem takeNumber_eq (n : Number) (hrest : Spaced rest) :
    takeNumber (n.text ++ rest) = .ok (n.text, rest) := by
  have hstops : Stops isDigit (n.fractionText ++ (n.exponentText ++ rest)) := by
    unfold fractionText
    cases n.fraction with
    | none => exact (n.stops_exponentText hrest).mono fun c hc => (Bool.or_eq_false_iff.1 hc).1
    | some ds => exact .cons (by decide)
  have hwhole := n.whole.run hstops
  have htext : n.text ++ rest = n.whole.text ++ (n.fractionText ++ (n.exponentText ++ rest)) := by
    simp [text]
  rw [htext, takeNumber, hwhole.1, hwhole.2, n.takeFraction_eq hrest]
  dsimp only
  rw [n.takeExponent_eq hrest]
  dsimp only
  have hsame : n.whole.text ++ n.fractionText ++ n.exponentText = n.text := by
    simp [text]
  cases rest with
  | nil => rw [hsame]
  | cons c rest =>
    have hc : c = ' ' := hrest c rfl
    subst hc
    dsimp only
    rw [if_neg (by decide), hsame]

end Number

-- =================================================================== words

namespace Scan

variable {c : Char} {cs rest : List Char}

/-- Nothing stands before a word. -/
theorem takeTrivia_word (hblank : isBlank c = false) (hslash : c = '/' → Spaced cs) :
    takeTrivia (c :: cs) = .skipped [] (c :: cs) := by
  refine takeTrivia_eq_nil_iff.2 ⟨hblank, fun he d hd => ?_⟩
  rw [hslash he d hd]
  decide

theorem ne_of_class {p : Char → Bool} (h : p c = true) {d : Char} (hd : p d = false) : c ≠ d := by
  intro he
  rw [he, hd] at h
  cases h

/-- A digit is none of the characters that names begin with. -/
theorem isWordStart_of_isDigit (h : isDigit c = true) : isWordStart c = false := by
  unfold isDigit at h
  rw [Bool.and_eq_true, decide_eq_true_eq, decide_eq_true_eq] at h
  have hhi : c.toNat ≤ 57 := h.2
  have hascii : c.toNat < 0x80 := by omega
  have hbefore {d : Char} (hd : 57 < d.toNat) : ¬ c.val ≥ d.val := fun hle =>
    absurd (Nat.lt_of_lt_of_le hd (UInt32.le_iff_toNat_le.1 hle)) (Nat.not_lt.2 hhi)
  have hunderscore : c ≠ '_' := by
    rintro rfl
    exact absurd hhi (by decide)
  unfold isWordStart Text.isLetter
  rw [if_pos hascii, Bool.or_eq_false_iff]
  refine ⟨Bool.or_eq_false_iff.2 ⟨?_, ?_⟩, decide_eq_false hunderscore⟩
  · exact decide_eq_false fun hle => hbefore (by decide) hle.1
  · exact Bool.and_eq_false_iff.2 (.inl (decide_eq_false (hbefore (by decide))))

/-- Nothing stands before a character of a class that has no blank and no
slash. -/
theorem takeTrivia_class {p : Char → Bool} (h : p c = true) (hslash : p '/' = false)
    (hblanks : p ' ' = false ∧ p '\t' = false ∧ p '\r' = false ∧ p '\n' = false)
    (cs : List Char) : takeTrivia (c :: cs) = .skipped [] (c :: cs) := by
  refine takeTrivia_word ?_ fun he => absurd he (ne_of_class h hslash)
  simp [isBlank, ne_of_class h hblanks.1, ne_of_class h hblanks.2.1, ne_of_class h hblanks.2.2.1,
    ne_of_class h hblanks.2.2.2]

theorem takeWord_name (x : Name) (hrest : Spaced rest) :
    takeTrivia (x.text ++ rest) = .skipped [] (x.text ++ rest) ∧
      takeWord x.first (x.others ++ rest) = .ok ⟨.identifier, x.text, [], rest⟩ := by
  refine ⟨takeTrivia_class x.start (by decide) (by decide) _, ?_⟩
  have hquote : ¬ (x.first = '"' ∨ x.first = '\'') := by
    rintro (he | he)
    · exact ne_of_class x.start (by decide) he
    · exact ne_of_class x.start (by decide) he
  have hdigit : ¬ isDigit x.first = true := by
    intro hd
    have := isWordStart_of_isDigit hd
    rw [x.start] at this
    cases this
  have hrun := takeWhile_eq_iff.2 ⟨rfl, x.word, hrest.stops (by decide)⟩
  rw [takeWord, if_neg hquote, if_neg hdigit, if_pos x.start]
  dsimp only
  rw [hrun.1, hrun.2, x.free]
  rfl

theorem takeWord_number (n : Number) (hrest : Spaced rest) : ∃ c cs, n.text ++ rest = c :: cs ∧
    takeTrivia (c :: cs) = .skipped [] (c :: cs) ∧
      takeWord c cs = .ok ⟨.number, n.text, [], rest⟩ := by
  obtain ⟨c, ds, hds⟩ := List.exists_cons_of_ne_nil n.whole.ne_nil
  have hc : isDigit c = true := n.whole.digit c (hds ▸ List.mem_cons_self)
  have htext : n.text ++ rest =
      c :: (ds ++ (n.fractionText ++ n.exponentText) ++ rest) := by
    rw [Number.text, hds]
    rfl
  refine ⟨c, _, htext, takeTrivia_class hc (by decide) (by decide) _, ?_⟩
  have hquote : ¬ (c = '"' ∨ c = '\'') := by
    rintro (he | he)
    · exact ne_of_class hc (by decide) he
    · exact ne_of_class hc (by decide) he
  rw [takeWord, if_neg hquote, if_pos hc, ← htext, n.takeNumber_eq hrest]

theorem takeWord_string (s : StringLiteral) (rest : List Char) :
    takeTrivia (s.text ++ rest) = .skipped [] (s.text ++ rest) ∧
      takeWord s.quote (piecesText s.pieces ++ s.quote :: rest) =
        .ok ⟨.string, s.text, s.pieces, rest⟩ := by
  have hpieces : takePieces s.quote (piecesText s.pieces ++ s.quote :: rest) =
      .ok (s.pieces, rest) :=
    (takePieces_eq_ok_iff s.quote_eq).2 ⟨rfl, s.valid⟩
  constructor
  · refine takeTrivia_word ?_ fun he => ?_
    · rcases s.quote_eq with h | h <;> rw [h] <;> rfl
    · rcases s.quote_eq with h | h <;> rw [h] at he <;> cases he
  · rw [takeWord, if_pos s.quote_eq, hpieces]
    rfl

theorem takeWord_mark (kind : TokenKind) (h : kind.spelling?.isSome) (hrest : Spaced rest) :
    ∃ c cs, (Lexeme.mark kind h).text ++ rest = c :: cs ∧
      takeTrivia (c :: cs) = .skipped [] (c :: cs) ∧
      takeWord c cs = .ok ⟨kind, (Lexeme.mark kind h).text, [], rest⟩ := by
  have hslash {c : Char} (hc : c ≠ '/') (cs : List Char) : c = '/' → Spaced cs :=
    fun he => absurd he hc
  obtain rfl | ⟨r, rfl⟩ : rest = [] ∨ ∃ r, rest = ' ' :: r := by
    cases rest with
    | nil => exact .inl rfl
    | cons c r => exact .inr ⟨r, by rw [hrest c rfl]⟩
  · cases kind <;> first
      | exact ⟨_, _, rfl, takeTrivia_word rfl (fun _ => hrest), rfl⟩
      | exact ⟨_, _, rfl, takeTrivia_word rfl (hslash (by decide) _), rfl⟩
      | cases h
  · cases kind <;> first
      | exact ⟨_, _, rfl, takeTrivia_word rfl (fun _ => hrest), rfl⟩
      | exact ⟨_, _, rfl, takeTrivia_word rfl (hslash (by decide) _), rfl⟩
      | cases h

end Scan

namespace Lexeme

/-- Whether a lexeme in front of some text is split off whole. -/
def Splits (ℓ : Lexeme) (rest : List Char) : Prop :=
  ∃ c cs, ℓ.text ++ rest = c :: cs ∧ takeTrivia (c :: cs) = .skipped [] (c :: cs) ∧
    takeWord c cs = .ok ⟨ℓ.kind, ℓ.text, ℓ.pieces, rest⟩

theorem Splits.trivia {ℓ : Lexeme} {rest : List Char} (h : ℓ.Splits rest) :
    takeTrivia (ℓ.text ++ rest) = .skipped [] (ℓ.text ++ rest) := by
  obtain ⟨c, cs, htext, htrivia, -⟩ := h
  rw [htext]
  exact htrivia

/-- A lexeme is split off whole where it is followed by what follows it in
print. -/
theorem splits_spaced (ℓ : Lexeme) {rest : List Char} (hrest : ℓ ≠ .sign → Spaced rest) :
    ℓ.Splits rest := by
  cases ℓ with
  | mark kind h => exact takeWord_mark kind h (hrest nofun)
  | sign => exact ⟨'-', rest, rfl, takeTrivia_word rfl (fun he => absurd he (by decide)), rfl⟩
  | name x =>
    obtain ⟨htrivia, hword⟩ := takeWord_name x (hrest nofun)
    exact ⟨_, _, rfl, htrivia, hword⟩
  | number n => exact takeWord_number n (hrest nofun)
  | string s =>
    obtain ⟨htrivia, hword⟩ := takeWord_string s rest
    have htext : s.text ++ rest = s.quote :: (piecesText s.pieces ++ s.quote :: rest) := by
      simp [StringLiteral.text]
    rw [htext] at htrivia
    exact ⟨_, _, htext, htrivia, hword⟩

/-- The marks that each are one character are split off whatever comes behind. -/
theorem splits_mark {kind : TokenKind} (h : kind.spelling?.isSome)
    (hk : kind ∈ [.lbracket, .rbracket, .comma, .semicolon]) (rest : List Char) :
    (mark kind h).Splits rest := by
  have hslash {c : Char} (hc : c ≠ '/') : c = '/' → ∀ d ∈ rest.head?, d ≠ '/' ∧ d ≠ '*' :=
    fun he => absurd he hc
  simp only [List.mem_cons, List.not_mem_nil, or_false] at hk
  rcases hk with rfl | rfl | rfl | rfl
  all_goals exact ⟨_, _, rfl, takeTrivia_eq_nil_iff.2 ⟨rfl, hslash (by decide)⟩, rfl⟩

/-- Whether a token is what a lexeme says. -/
structure Fits (ℓ : Lexeme) (t : Token) : Prop where
  kind : t.kind = ℓ.kind
  lexeme : t.lexeme = String.ofList ℓ.text
  pieces : t.pieces = ℓ.pieces

/-- Whether tokens are what lexemes say, one by one, with nothing between a
sign and the token after it. -/
inductive Spell : List Lexeme → List Token → Prop
  | nil : Spell [] []
  | cons {ℓ : Lexeme} {t : Token} {ls : List Lexeme} {ts : List Token} (h : ℓ.Fits t)
      (hsign : ℓ = .sign → ∀ u ∈ ts.head?, t.span.stop = u.span.start) (hrest : Spell ls ts) :
      Spell (ℓ :: ls) (t :: ts)

end Lexeme

-- ==================================================================== runs

/-- What becomes of a text whose front was skipped like this. -/
def lexSkipped (file : Option String) (p : Position) : Trivia → Lexed
  | .unterminated text comment =>
    ⟨[], .error ⟨.unterminatedComment, ⟨p.after text, (p.after text).after comment, file⟩⟩⟩
  | .skipped text [] => ⟨[], .ok ⟨p.after text, p.after text, file⟩⟩
  | .skipped text (c :: rest) =>
    match takeWord c rest with
    | .error (fault, consumed) =>
      ⟨[], .error ⟨fault, ⟨p.after text, (p.after text).after consumed, file⟩⟩⟩
    | .ok w =>
      (lexFrom file ((p.after text).after w.lexeme) w.rest).cons
        (Token.ofWord file (p.after text) w)

theorem lexFrom_eq (file : Option String) (p : Position) (cs : List Char) :
    lexFrom file p cs = lexSkipped file p (takeTrivia cs) := by
  rw [lexFrom]
  split
  · rename_i h
    rw [h, lexSkipped]
  · rename_i h
    rw [h, lexSkipped]
  · rename_i h
    rw [h, lexSkipped]
    split
    · rename_i hw
      rw [hw]
    · rename_i hw
      rw [hw]

theorem lexSkipped_behind (file : Option String) (p : Position) (before : List Char) (t : Trivia) :
    lexSkipped file p (t.behind before) = lexSkipped file (p.after before) t := by
  obtain ⟨text, _ | ⟨c, rest⟩⟩ | ⟨text, comment⟩ := t
  all_goals
    rw [Trivia.behind, lexSkipped, lexSkipped, Position.after_append]

theorem lexFrom_nil (file : Option String) (p : Position) :
    lexFrom file p [] = ⟨[], .ok ⟨p, p, file⟩⟩ := by
  rw [lexFrom_eq, takeTrivia]
  rfl

/-- Reading on after a word. -/
theorem lexFrom_word (file : Option String) (p : Position) {cs text rest : List Char} {c : Char}
    {w : Word} (ht : takeTrivia cs = .skipped text (c :: rest)) (hw : takeWord c rest = .ok w) :
    lexFrom file p cs = (lexFrom file ((p.after text).after w.lexeme) w.rest).cons
      (Token.ofWord file (p.after text) w) := by
  rw [lexFrom_eq, ht, lexSkipped, hw]

/-- What stands behind a gap is read as it is without it. -/
theorem lexFrom_gap {gap : List Char} (h : Gap gap) (file : Option String) (p : Position)
    (cs : List Char) : lexFrom file p (gap ++ cs) = lexFrom file (p.after gap) cs := by
  rw [lexFrom_eq, takeTrivia_gap h, lexSkipped_behind, ← lexFrom_eq]

namespace Lexeme

/-- What comes after a lexeme in print. -/
def after (ℓ : Lexeme) : List Lexeme → List Char
  | [] => []
  | ls => ℓ.gap ++ join ls

theorem join_cons (ℓ : Lexeme) (ls : List Lexeme) : join (ℓ :: ls) = ℓ.text ++ ℓ.after ls := by
  cases ls with
  | nil => rw [join, after, List.append_nil]
  | cons => rfl

theorem fits_ofWord (ℓ : Lexeme) (file : Option String) (p : Position) (rest : List Char) :
    ℓ.Fits (Token.ofWord file p ⟨ℓ.kind, ℓ.text, ℓ.pieces, rest⟩) :=
  ⟨rfl, rfl, Token.pieces_placeParts _ _ _⟩

/-- Whether a text is lexemes with gaps in front of them, each split off whole, and with
nothing between a sign and the word after it. -/
inductive Typeset : List Lexeme → List Char → Prop
  | nil : Typeset [] []
  | cons {ℓ : Lexeme} {ls : List Lexeme} {gap rest : List Char} : Gap gap → ℓ.Splits rest →
      (ℓ = .sign → takeTrivia rest = .skipped [] rest) → Typeset ls rest →
      Typeset (ℓ :: ls) (gap ++ (ℓ.text ++ rest))

/-- A mark that is one character, in front of what is typeset. -/
theorem Typeset.mark (kind : TokenKind) (h : kind.spelling?.isSome)
    (hk : kind ∈ [.lbracket, .rbracket, .comma, .semicolon]) {ls : List Lexeme}
    {gap rest : List Char} (hgap : Gap gap) (hrest : Typeset ls rest) :
    Typeset (.mark kind h :: ls) (gap ++ ((Lexeme.mark kind h).text ++ rest)) :=
  .cons hgap (splits_mark h hk rest) (fun he => by cases he) hrest

/-- The first token of a text begins behind the gap. -/
theorem start_of_head {file : Option String} {p : Position} {cs gap rest : List Char}
    (h : takeTrivia cs = .skipped gap rest) :
    ∀ u ∈ (lexFrom file p cs).tokens.head?, u.span.start = p.after gap := by
  intro u hu
  rw [lexFrom_eq, h] at hu
  cases rest with
  | nil => cases hu
  | cons c rest =>
    rw [lexSkipped] at hu
    rcases hword : takeWord c rest with ⟨fault, consumed⟩ | w
    · rw [hword] at hu
      cases hu
    · rw [hword] at hu
      cases hu
      rfl

/-- Typeset lexemes are read as one token each. -/
theorem lexFrom_typeset (file : Option String) {ls : List Lexeme} {cs : List Char}
    (h : Typeset ls cs) (p : Position) :
    (∃ stop, (lexFrom file p cs).ending = .ok stop) ∧ Spell ls (lexFrom file p cs).tokens := by
  induction h generalizing p with
  | nil =>
    rw [lexFrom_nil]
    exact ⟨⟨_, rfl⟩, .nil⟩
  | @cons ℓ ls gap rest hgap hsplits hsign _ ih =>
    obtain ⟨c, cs, htext, htrivia, hword⟩ := hsplits
    obtain ⟨hend, hspell⟩ := ih ((p.after gap).after ℓ.text)
    rw [lexFrom_gap hgap, htext, lexFrom_word file _ htrivia hword]
    refine ⟨hend, .cons (ℓ.fits_ofWord file _ _) (fun hℓ u hu => ?_) hspell⟩
    have hstart := start_of_head (hsign hℓ) u hu
    rw [Position.after_nil] at hstart
    exact hstart.symm

/-- A text of typeset lexemes has a token for each of them. -/
theorem tokenize_typeset (file : Option String) {ls : List Lexeme} {source : String}
    (h : Typeset ls source.toList) :
    ∃ list, tokenize file source = .ok list ∧ Spell ls list.tokens := by
  obtain ⟨⟨stop, hstop⟩, hspell⟩ := lexFrom_typeset file h {}
  refine ⟨⟨(lexFrom file {} source.toList).tokens, stop⟩, ?_, hspell⟩
  unfold tokenize lex
  dsimp only
  rw [hstop]
  rfl

/-- A lexeme in print is split off whole. -/
theorem splits_after (ℓ : Lexeme) (ls : List Lexeme) : ℓ.Splits (ℓ.after ls) := by
  refine ℓ.splits_spaced fun hsign => ?_
  cases ls with
  | nil => exact fun c hc => nomatch hc
  | cons =>
    cases ℓ with
    | sign => exact absurd rfl hsign
    | _ => exact fun c hc => (Option.mem_some.1 hc).symm

/-- Lexemes in print are typeset. -/
theorem typeset_join (ℓ : Lexeme) (ls : List Lexeme) {gap : List Char} (hgap : Gap gap) :
    Typeset (ℓ :: ls) (gap ++ join (ℓ :: ls)) := by
  induction ls generalizing ℓ gap with
  | nil =>
    rw [join_cons]
    exact .cons hgap (ℓ.splits_after []) (fun _ => by rw [after, takeTrivia]) .nil
  | cons ℓ' ls ih =>
    rw [join_cons]
    have hsplits := ℓ.splits_after (ℓ' :: ls)
    cases ℓ with
    | sign =>
      have hnext := (ℓ'.splits_after ls).trivia
      rw [← join_cons] at hnext
      exact .cons hgap hsplits (fun _ => hnext) (ih ℓ' .nil)
    | mark | name | number | string =>
      exact .cons hgap hsplits (fun he => by cases he) (ih ℓ' (.blank List.mem_cons_self .nil))

/-- A text of printed lexemes has a token for each of them. -/
theorem tokenize_join (file : Option String) (ls : List Lexeme) :
    ∃ list, tokenize file (String.ofList (join ls)) = .ok list ∧ Spell ls list.tokens := by
  refine tokenize_typeset file ?_
  rw [String.toList_ofList]
  cases ls with
  | nil => exact .nil
  | cons ℓ ls => exact typeset_join ℓ ls .nil

end Lexeme

end SamScript
