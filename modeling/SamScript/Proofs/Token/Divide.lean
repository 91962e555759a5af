/-
Where a text can be cut. A character divides (`Divides`) if it goes on with no
number, no name and no mark. Up to such a character the scanners do not see what
comes after it: they take the same from the front alone (`takeNumber_divided`,
`symbol?_divided`), a string literal that is closed before it is taken as it was,
and so the tokens of a text up to a semicolon are still there if another dividing
character stands in its place and any text comes behind (`lexFrom_divided`).
-/
import SamScript.Proofs.Token.Lexeme
import SamScript.Proofs.Token.Tiling

namespace SamScript

open Utf8

namespace Scan

open Decimal

-- ============================================================= characters

/-- Whether a character goes on with no word but a string literal, and with no
comment. -/
structure Divides (a : Char) : Prop where
  word : isWordChar a = false
  start : isWordStart a = false
  digit : isDigit a = false
  other : a ∉ ['e', 'E', '.', '+', '-', '*', '/', '=', '>', '&', '|']

theorem divides_semicolon : Divides ';' := by
  constructor <;> decide

theorem divides_space : Divides ' ' := by
  constructor <;> decide

theorem divides_comma : Divides ',' := by
  constructor <;> decide

theorem divides_bracket : Divides ']' := by
  constructor <;> decide

theorem divides_of_isBlank {c : Char} (h : isBlank c = true) : Divides c := by
  have hblank := isBlank_iff.1 h
  simp only [List.mem_cons, List.not_mem_nil, or_false] at hblank
  rcases hblank with rfl | rfl | rfl | rfl <;> constructor <;> decide

variable {a b c : Char} {x y q r rest : List Char}

theorem Divides.ne (h : Divides a) {d : Char}
    (hd : d ∈ ['e', 'E', '.', '+', '-', '*', '/', '=', '>', '&', '|']) : a ≠ d :=
  fun he => h.other (he ▸ hd)

-- =============================================================== scanners

/-- What a scanner took, with more text behind what it left. -/
def withMore (more : List Char) (taken : List Char × List Char) : List Char × List Char :=
  (taken.1, taken.2 ++ more)

theorem Stops.append {p : Char → Bool} (h : Stops p x) (ha : p a = false) (r : List Char) :
    Stops p (x ++ a :: r) := by
  cases x with
  | nil => exact .cons ha
  | cons c x => exact .cons h.head

theorem takeWhile_divided {p : Char → Bool} (ha : p a = false) (x r : List Char) :
    (x ++ a :: r).takeWhile p = x.takeWhile p ∧
      (x ++ a :: r).dropWhile p = x.dropWhile p ++ a :: r := by
  obtain ⟨hsplit, hall, hstops⟩ := takeWhile_eq_iff.1 (⟨rfl, rfl⟩ :
    x.takeWhile p = x.takeWhile p ∧ x.dropWhile p = x.dropWhile p)
  refine takeWhile_eq_iff.2 ⟨?_, hall, hstops.append ha r⟩
  rw [← List.append_assoc, ← hsplit]

theorem takeUpTo_divided {n : Nat} {p : Char → Bool} (ha : p a = false) (x r : List Char) :
    takeUpTo n p (x ++ a :: r) = withMore (a :: r) (takeUpTo n p x) := by
  generalize htake : takeUpTo n p x = taken
  obtain ⟨hsplit, hall, hlength, hstops⟩ := takeUpTo_eq_iff.1 htake
  refine takeUpTo_eq_iff.2 ⟨?_, hall, hlength, fun hlt => (hstops hlt).append ha r⟩
  rw [← List.append_assoc, ← hsplit]

theorem takeFraction_divided (ha : Divides a) (x r : List Char) :
    takeFraction (x ++ a :: r) = withMore (a :: r) (takeFraction x) := by
  have hpoint : a ≠ '.' := ha.ne (by decide)
  obtain _ | ⟨c, x⟩ := x
  · rw [List.nil_append, takeFraction, takeFraction]
    · rfl
    · exact fun _ he => List.cons_ne_nil _ _ he.symm
    · exact fun _ he => hpoint (List.cons.inj he).1
  · by_cases hc : c = '.'
    · subst hc
      obtain ⟨htake, hdrop⟩ := takeWhile_divided ha.digit x r
      rw [List.cons_append, takeFraction, takeFraction, htake, hdrop]
      split <;> rfl
    · rw [List.cons_append, takeFraction, takeFraction]
      · rfl
      · exact fun _ he => hc (List.cons.inj he).1
      · exact fun _ he => hc (List.cons.inj he).1

theorem takeExponent_divided (ha : Divides a) (x r : List Char) :
    takeExponent (x ++ a :: r) = (takeExponent x).map (withMore (a :: r)) := by
  obtain _ | ⟨e, x⟩ := x
  · have hletter : ¬ (a = 'e' ∨ a = 'E') :=
      not_or.2 ⟨ha.ne (by decide), ha.ne (by decide)⟩
    have hnone : takeExponent (a :: r) = .ok ([], a :: r) := by
      rw [takeExponent, if_neg hletter]
    rw [List.nil_append, hnone]
    rfl
  · have hsign : (fun c => decide (c = '+') || decide (c = '-')) a = false := by
      rw [Bool.or_eq_false_iff, decide_eq_false_iff_not, decide_eq_false_iff_not]
      exact ⟨ha.ne (by decide), ha.ne (by decide)⟩
    rw [List.cons_append, takeExponent, takeExponent, takeUpTo_divided hsign]
    split
    · generalize takeUpTo 1 (fun c => decide (c = '+') || decide (c = '-')) x = taken
      obtain ⟨sign, body⟩ := taken
      obtain ⟨htake, hdrop⟩ := takeWhile_divided ha.digit body r
      dsimp only [withMore]
      rw [htake, hdrop]
      split <;> rfl
    · rfl

theorem takeNumber_divided (ha : Divides a) (x r : List Char) :
    takeNumber (x ++ a :: r) = (takeNumber x).map (withMore (a :: r)) := by
  obtain ⟨htake, hdrop⟩ := takeWhile_divided ha.digit x r
  rw [takeNumber, takeNumber, htake, hdrop, takeFraction_divided ha]
  generalize takeFraction (x.dropWhile isDigit) = taken
  obtain ⟨fraction, tail⟩ := taken
  dsimp only [withMore]
  rw [takeExponent_divided ha]
  cases takeExponent tail with
  | error consumed => rfl
  | ok taken =>
    obtain ⟨exponent, rest⟩ := taken
    dsimp only [Except.map, withMore]
    cases rest with
    | nil =>
      rw [List.nil_append]
      dsimp only
      rw [if_neg (by rw [ha.start]; exact Bool.false_ne_true)]
      rfl
    | cons c rest =>
      dsimp only [List.cons_append]
      split
      · rw [← List.cons_append, (takeWhile_divided ha.word (c :: rest) r).1]
      · rfl

theorem symbol?_divided (ha : Divides a) (c : Char) (x r : List Char) :
    symbol? (c :: x ++ a :: r) =
      (symbol? (c :: x)).map fun (kind, lexeme, rest) => (kind, lexeme, rest ++ a :: r) := by
  -- the second character of a mark comes from the front or not at all
  have hsecond {d : Char} {more : List Char} (hx : ∀ rest, x = d :: rest → False)
      (hd : d ∈ ['=', '>', '&', '|']) : x ++ a :: r = d :: more → False := by
    have hother : d ∈ ['e', 'E', '.', '+', '-', '*', '/', '=', '>', '&', '|'] :=
      List.mem_append_right ['e', 'E', '.', '+', '-', '*', '/'] hd
    cases x with
    | nil => exact fun he => ha.ne hother (List.cons.inj he).1
    | cons e x => exact fun he => hx x (by rw [(List.cons.inj he).1])
  generalize hcs : c :: x = cs
  fun_cases symbol? cs
  case case25 =>
    subst hcs
    have hfirst {d : Char} {more : List Char} (hc : ∀ rest, c :: x = d :: rest → False) :
        c :: (x ++ a :: r) = d :: more → False :=
      fun he => hc x (by rw [(List.cons.inj he).1])
    have hpair {d e : Char} {more : List Char} (hc : ∀ rest, c :: x = d :: e :: rest → False)
        (he : e ∈ ['=', '>', '&', '|']) : c :: (x ++ a :: r) = d :: e :: more → False := by
      intro h
      obtain ⟨hcd, h⟩ := List.cons.inj h
      exact hsecond (fun rest hx => hc rest (by rw [hcd, hx])) he h
    rw [List.cons_append, symbol?]
    · rfl
    all_goals first
      | exact fun _ => hfirst ‹_›
      | exact fun _ => hpair ‹_› (by decide)
  all_goals cases hcs
  all_goals first
    | rfl
    | rw [List.cons_append, symbol?]
      · rfl
      all_goals exact fun _ => hsecond ‹_› (by decide)

/-- A gap that ends in front of a word is the same whatever comes behind the
front. -/
theorem takeTrivia_divided (hb : Divides b) {text : List Char}
    (h : takeTrivia (text ++ c :: (x ++ a :: rest)) = .skipped text (c :: (x ++ a :: rest)))
    (r : List Char) :
    takeTrivia (text ++ c :: (x ++ b :: r)) = .skipped text (c :: (x ++ b :: r)) := by
  have hgap := (takeTrivia_skipped h).1 (List.cons_ne_nil _ _)
  rw [takeTrivia_gap hgap] at h ⊢
  obtain ⟨more, hword, htext⟩ := Trivia.eq_skipped_of_behind h
  obtain rfl := List.append_right_eq_self.1 htext.symm
  obtain ⟨hblank, hslash⟩ := takeTrivia_eq_nil_iff.1 hword
  rw [takeTrivia_eq_nil_iff.2 ⟨hblank, fun hc d hd => ?_⟩, Trivia.behind, List.append_nil]
  cases x with
  | nil =>
    cases hd
    exact ⟨hb.ne (by decide), hb.ne (by decide)⟩
  | cons e x => exact hslash hc d hd

-- ================================================================== words

/-- A word with more text behind what it left. -/
def Word.withMore (more : List Char) (w : Word) : Word :=
  { w with rest := w.rest ++ more }

/-- Any word but a string literal is what the front alone says. -/
theorem takeWord_front (ha : Divides a) (hquote : ¬ (c = '"' ∨ c = '\'')) (x r : List Char) :
    takeWord c (x ++ a :: r) = (takeWord c x).map (Word.withMore (a :: r)) := by
  unfold takeWord
  rw [if_neg hquote, if_neg hquote, ← List.cons_append, takeNumber_divided ha,
    symbol?_divided ha]
  split
  · cases takeNumber (c :: x) <;> rfl
  · split
    · obtain ⟨htake, hdrop⟩ := takeWhile_divided ha.word x r
      rw [htake, hdrop]
      rfl
    · cases symbol? (c :: x) <;> rfl

/-- A word that ends in front of a dividing character is the same in front of
any other. -/
theorem takeWord_divided (ha : Divides a) (hb : Divides b) {w : Word}
    (hw : takeWord c (x ++ a :: rest) = .ok w) (hrest : w.rest = y ++ a :: rest)
    (r : List Char) : takeWord c (x ++ b :: r) = .ok { w with rest := y ++ b :: r } := by
  by_cases hquote : c = '"' ∨ c = '\''
  · unfold takeWord at hw ⊢
    rw [if_pos hquote] at hw ⊢
    split at hw
    · cases hw
    · rename_i pieces left hpieces
      cases hw
      obtain rfl : left = y ++ a :: rest := hrest
      obtain ⟨hwhole, hvalid⟩ := (takePieces_eq_ok_iff hquote).1 hpieces
      have hx : x = piecesText pieces ++ c :: y := by
        refine (List.append_left_inj (a :: rest)).1 ?_
        rw [hwhole, List.append_assoc, List.cons_append]
      rw [(takePieces_eq_ok_iff hquote).2 ⟨?_, hvalid⟩]
      rw [hx, List.append_assoc, List.cons_append]
  · rw [takeWord_front ha hquote] at hw
    rw [takeWord_front hb hquote]
    cases hfront : takeWord c x with
    | error e =>
      rw [hfront] at hw
      cases hw
    | ok v =>
      rw [hfront] at hw
      cases hw
      cases List.append_cancel_right hrest
      rfl

end Scan

namespace Lexeme

/-- A lexeme in front of a dividing character is split off whole, as it is in front of
a space. -/
theorem splits_divided (ℓ : Lexeme) {a : Char} (ha : Scan.Divides a) (r : List Char) :
    ℓ.Splits (a :: r) := by
  have hspaced : ℓ.Splits [' '] := ℓ.splits_spaced fun _ d hd => (Option.mem_some.1 hd).symm
  obtain ⟨c, cs, htext, htrivia, hword⟩ := hspaced
  obtain ⟨-, hne⟩ := Scan.takeWord_append hword
  obtain ⟨d, x, hx⟩ := List.exists_cons_of_ne_nil (show ℓ.text ≠ [] from hne)
  rw [hx, List.cons_append] at htext
  obtain ⟨rfl, rfl⟩ := List.cons.inj htext
  refine ⟨d, x ++ a :: r, by rw [hx]; rfl, ?_, ?_⟩
  · have hfront : Scan.takeTrivia ([] ++ d :: (x ++ ' ' :: [])) = .skipped [] _ := htrivia
    exact Scan.takeTrivia_divided ha hfront r
  · exact Scan.takeWord_divided Scan.divides_space ha hword (List.nil_append _).symm r

/-- A lexeme in front of what is typeset and begins with a dividing character. -/
theorem Typeset.divided {ℓ : Lexeme} {ls : List Lexeme} {gap r : List Char} {a : Char}
    (hgap : Scan.Gap gap) (hℓ : ℓ ≠ .sign) (ha : Scan.Divides a) (hrest : Typeset ls (a :: r)) :
    Typeset (ℓ :: ls) (gap ++ (ℓ.text ++ a :: r)) :=
  .cons hgap (ℓ.splits_divided ha r) (fun he => absurd he hℓ) hrest

end Lexeme

-- =================================================================== runs

open Scan

/-- Some text with more tokens in front of its own. -/
def Lexed.behind (ts : List Token) (l : Lexed) : Lexed :=
  ⟨ts ++ l.tokens, l.ending⟩

variable {file : Option String} {p : Position} {a b : Char} {before cs rest : List Char}
  {t : Token} {ts us : List Token}

/-- The first token of a text. -/
theorem exists_word (h : (lexFrom file p cs).tokens = t :: ts) : ∃ text c rest w,
    takeTrivia cs = .skipped text (c :: rest) ∧ takeWord c rest = .ok w ∧
      Token.ofWord file (p.after text) w = t ∧
      (lexFrom file ((p.after text).after w.lexeme) w.rest).tokens = ts := by
  rw [lexFrom_eq] at h
  generalize takeTrivia cs = trivia at h ⊢
  obtain ⟨text, _ | ⟨c, rest⟩⟩ | ⟨text, comment⟩ := trivia
  · cases h
  · rw [lexSkipped] at h
    cases hw : takeWord c rest with
    | error e =>
      rw [hw] at h
      cases h
    | ok w =>
      rw [hw] at h
      obtain ⟨ht, hts⟩ := List.cons.inj h
      exact ⟨text, c, rest, w, rfl, hw, ht, hts⟩
  · cases h

/-- The tokens in front of a token that begins with a dividing character. They
are there whatever other dividing character stands in its place, and whatever
comes behind. -/
theorem lexFrom_divided (ha : Divides a) (hb : Divides b)
    (h : (lexFrom file p (before ++ a :: rest)).tokens = ts ++ t :: us)
    (ht : t.span.start.offset = (p.after before).offset) (r : List Char) :
    lexFrom file p (before ++ b :: r) = (lexFrom file (p.after before) (b :: r)).behind ts := by
  induction ts generalizing p before with
  | nil =>
    obtain ⟨text, c, left, w, htrivia, -, rfl, -⟩ := exists_word h
    have hwhole := takeTrivia_whole (before ++ a :: rest)
    rw [htrivia, Trivia.whole] at hwhole
    have hoffset : (p.after text).offset = (p.after before).offset := ht
    rw [Position.offset_after, Position.offset_after] at hoffset
    obtain rfl := eq_of_width hwhole (Nat.add_left_cancel hoffset)
    have hgap := (takeTrivia_skipped htrivia).1 (List.cons_ne_nil _ _)
    rw [lexFrom_gap hgap]
    rfl
  | cons t₀ ts ih =>
    obtain ⟨text, c, left, w, htrivia, hw, rfl, hmore⟩ := exists_word h
    have hwhole := takeTrivia_whole (before ++ a :: rest)
    rw [htrivia, Trivia.whole] at hwhole
    obtain ⟨hword, hne⟩ := takeWord_append hw
    -- the word ends before the token in question
    obtain ⟨y, rfl, hrest⟩ : ∃ y, before = text ++ (w.lexeme ++ y) ∧ w.rest = y ++ a :: rest := by
      have hin := lexFrom_inOrder file ((p.after text).after w.lexeme) w.rest
      rw [hmore] at hin
      have hle := (hin.of_mem (List.mem_map_of_mem (List.mem_append_right ts List.mem_cons_self))).1
      have hstart : ((p.after text).after w.lexeme).offset ≤ t.span.start.offset := hle
      rw [ht, ← Position.after_append, Position.offset_after, Position.offset_after] at hstart
      rw [← hword, ← List.append_assoc] at hwhole
      obtain ⟨y, hbefore, hrest⟩ := append_of_width_le hwhole (by omega)
      exact ⟨y, by rw [hbefore, List.append_assoc], hrest⟩
    obtain ⟨d, x, hlexeme⟩ := List.exists_cons_of_ne_nil hne
    have hfront (z : List Char) : text ++ (w.lexeme ++ y) ++ z = text ++ d :: (x ++ y ++ z) := by
      rw [hlexeme]
      simp
    have hleft : d :: (x ++ y ++ a :: rest) = c :: left := by
      rw [← hword, hlexeme, hrest, List.cons_append, List.append_assoc]
    obtain ⟨rfl, rfl⟩ := List.cons.inj hleft
    rw [hfront] at htrivia
    rw [hrest] at hmore
    rw [Position.after_append, Position.after_append] at ht ⊢
    rw [hfront, lexFrom_word file p (takeTrivia_divided hb htrivia r)
      (takeWord_divided ha hb hw hrest r)]
    dsimp only
    rw [ih hmore ht]
    rfl

theorem lexFrom_semicolon (file : Option String) (p : Position) (rest : List Char) :
    lexFrom file p (';' :: rest) = (lexFrom file (p.after [';']) rest).cons
      (Token.ofWord file p ⟨.semicolon, [';'], [], rest⟩) :=
  lexFrom_word file p (takeTrivia_eq_nil_iff.2 ⟨rfl, fun he => absurd he (by decide)⟩) rfl

-- ============================================================== programs

/-- A program with a space in place of a semicolon has the other tokens, each
where it was. -/
theorem tokenize_spaced {source : String} {list : TokenList} (h : tokenize file source = .ok list)
    (hlist : list.tokens = ts ++ t :: us) (hsource : source.toList = before ++ ';' :: rest)
    (ht : t.span.start.offset = Utf8.width before) :
    tokenize file (String.ofList (before ++ ' ' :: rest)) = .ok ⟨ts ++ us, list.stop⟩ := by
  obtain ⟨htokens, hend⟩ := tokenize_eq_ok h
  unfold lex at htokens hend
  rw [hsource] at htokens hend
  rw [hlist] at htokens
  have hoffset : t.span.start.offset = (({} : Position).after before).offset := by
    rw [ht, Position.offset_after, Nat.zero_add]
  have hwith := lexFrom_divided divides_semicolon divides_semicolon htokens.symm hoffset rest
  have hwithout := lexFrom_divided divides_semicolon divides_space htokens.symm hoffset rest
  generalize ({} : Position).after before = p at hwith hwithout
  have hspace : lexFrom file p (' ' :: rest) = lexFrom file (p.after [' ']) rest :=
    lexFrom_gap (.blank (by decide) .nil) file p rest
  have hwidth : p.after [' '] = p.after [';'] := rfl
  rw [lexFrom_semicolon] at hwith
  rw [hspace, hwidth] at hwithout
  rw [hwith] at htokens hend
  have hus : us = (lexFrom file (p.after [';']) rest).tokens :=
    (List.cons.inj (List.append_cancel_left htokens)).2
  unfold tokenize lex
  rw [String.toList_ofList, hwithout, hus]
  show Except.map _ (lexFrom file (p.after [';']) rest).ending = _
  rw [show (lexFrom file (p.after [';']) rest).ending = .ok list.stop from hend]
  rfl

end SamScript
