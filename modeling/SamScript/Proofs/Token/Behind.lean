/-
Text behind text. A text that is read from a later place has the same tokens,
each moved by as much as the place is (`lexFrom_shift`). Where a program ends in a
semicolon, with nothing but a gap behind it, a line feed closes that gap: a line
comment that ran to the end of the text ends there, and no word or comment goes on
into what follows. So a line feed and more text leave the tokens of the program as
they were, and put those of the other text behind them (`tokenize_behind`).
-/
import SamScript.Proofs.Token.Divide

namespace SamScript

open Scan

-- ================================================================= moving

/-- How far something stands from where it stood: so many rows and bytes. Only
whole rows are moved, so columns stay. -/
structure Shift where
  rows : Nat
  bytes : Nat

/-- How far what begins behind some lines is from the start of a text. -/
def Shift.past (lines : List Char) : Shift :=
  ⟨lines.count '\n', Utf8.width lines⟩

variable (d : Shift)

def Position.shift (p : Position) : Position :=
  ⟨p.line + d.rows, p.column, p.offset + d.bytes⟩

def Span.shift (s : Span) : Span :=
  ⟨s.start.shift d, s.stop.shift d, s.file⟩

def StringPart.shift (part : StringPart) : StringPart :=
  { part with span := part.span.shift d }

def Token.shift (t : Token) : Token :=
  { t with span := t.span.shift d, parts := t.parts.map (StringPart.shift d) }

namespace Position

/-- The same text further on ends further on. -/
theorem after_shift (p : Position) (text : List Char) :
    (p.shift d).after text = (p.after text).shift d := by
  induction text generalizing p with
  | nil => rfl
  | cons c rest ih =>
    have hadvance : (p.shift d).advance c = (p.advance c).shift d := by
      unfold advance shift
      split
      · simp only [Position.mk.injEq, true_and]
        omega
      · simp only [Position.mk.injEq, true_and]
        omega
    rw [after_cons, hadvance, ih, after_cons]

/-- Behind a line feed a text begins a row of its own. -/
theorem after_feed (front : List Char) :
    ({} : Position).after (front ++ ['\n']) =
      ({} : Position).shift (.past (front ++ ['\n'])) := by
  obtain ⟨hoffset, hline, hcolumn⟩ := behind_after (front ++ ['\n'])
  have hfeed : ((front ++ ['\n']).reverse.takeWhile (· ≠ '\n')).length = 0 := by simp
  rw [hfeed] at hcolumn
  rw [Utf8.length_encode] at hoffset
  generalize ({} : Position).after (front ++ ['\n']) = p at hoffset hline hcolumn ⊢
  cases p
  dsimp only at hoffset hline hcolumn
  rw [hoffset, hline, hcolumn, shift, Shift.past]
  simp only [Position.mk.injEq, true_and]
  omega

end Position

-- ================================================================= tokens

namespace Token

variable {d} {file : Option String}

theorem placeParts_shift (p : Position) (pieces : List Piece) :
    placeParts file (p.shift d) pieces = (placeParts file p pieces).map (StringPart.shift d) := by
  induction pieces generalizing p with
  | nil => rfl
  | cons piece rest ih =>
    obtain ⟨kind, text⟩ := piece
    rw [placeParts, placeParts, Position.after_shift, ih]
    rfl

theorem ofWord_shift (p : Position) (w : Word) :
    ofWord file (p.shift d) w = (ofWord file p w).shift d := by
  rw [ofWord, Position.after_shift, Position.after_shift, placeParts_shift]
  rfl

end Token

/-- The tokens of a text that begins at a later place. -/
theorem lexFrom_shift (file : Option String) (p : Position) (cs : List Char) :
    (lexFrom file (p.shift d) cs).tokens = (lexFrom file p cs).tokens.map (Token.shift d) ∧
      ∀ stop, (lexFrom file p cs).ending = .ok stop →
        (lexFrom file (p.shift d) cs).ending = .ok (stop.shift d) := by
  fun_induction lexFrom file p cs with
  | case1 p cs text comment htrivia =>
    rw [lexFrom_eq, htrivia]
    exact ⟨rfl, fun stop h => by cases h⟩
  | case2 p cs text htrivia =>
    rw [lexFrom_eq, htrivia, lexSkipped, Position.after_shift]
    refine ⟨rfl, fun stop h => ?_⟩
    cases h
    rfl
  | case3 p cs text c rest htrivia fault consumed hw =>
    rw [lexFrom_eq, htrivia, lexSkipped, hw]
    exact ⟨rfl, fun stop h => by cases h⟩
  | case4 p cs text c rest htrivia w hw ih =>
    obtain ⟨htokens, hend⟩ := ih
    rw [lexFrom_word file (p.shift d) htrivia hw, Position.after_shift, Position.after_shift,
      Token.ofWord_shift]
    refine ⟨?_, hend⟩
    show _ :: _ = List.map _ (_ :: _)
    rw [htokens, List.map_cons]

-- =================================================================== gaps

/-- With a line feed behind it, whatever can stand behind the last word can stand
between words. -/
theorem Scan.LastGap.feed {text : List Char} (h : LastGap text) : Gap (text ++ ['\n']) := by
  have hfeed : Gap ['\n'] := .blank (by decide) .nil
  cases h with
  | closed hgap => exact hgap.append hfeed
  | @cut text body hgap hbody =>
    rw [List.append_assoc]
    exact hgap.append (.line hbody hfeed)

/-- A text without a token is a gap, but for the end of a line comment. -/
theorem lastGap_of_tokens {file : Option String} {p : Position} {cs : List Char} {stop : Span}
    (htokens : (lexFrom file p cs).tokens = []) (hend : (lexFrom file p cs).ending = .ok stop) :
    LastGap cs := by
  rw [lexFrom_eq] at htokens hend
  rcases htrivia : takeTrivia cs with ⟨text, _ | ⟨c, rest⟩⟩ | ⟨text, comment⟩
  · have hwhole := takeTrivia_whole cs
    rw [htrivia, Trivia.whole, List.append_nil] at hwhole
    exact hwhole ▸ (takeTrivia_skipped htrivia).2
  · rw [htrivia, lexSkipped] at htokens hend
    cases hw : takeWord c rest with
    | error e =>
      rw [hw] at hend
      cases hend
    | ok w =>
      rw [hw] at htokens
      cases htokens
  · rw [htrivia] at hend
    cases hend

-- =============================================================== programs

/-- Whether some tokens end in a semicolon, if there are any. -/
def Parser.Closed (ts : List Token) : Prop :=
  ∀ t ∈ ts.getLast?, t.kind = .semicolon

open SamScript.Parser

variable {file : Option String}

/-- A line feed keeps apart what is behind it from a text that ends in a
semicolon. -/
theorem lex_behind {first : String} {stop : Span} (hend : (lex file first).ending = .ok stop)
    (hclosed : Closed (lex file first).tokens) (more : List Char) :
    lexFrom file {} (first.toList ++ '\n' :: more) =
      (lexFrom file (({} : Position).after (first.toList ++ ['\n'])) more).behind
        (lex file first).tokens := by
  unfold lex at hend hclosed ⊢
  have hfeed {text : List Char} (h : LastGap text) (p : Position) :
      lexFrom file p (text ++ '\n' :: more) =
        lexFrom file (p.after (text ++ ['\n'])) more := by
    rw [← lexFrom_gap h.feed, List.append_assoc]
    rfl
  rcases List.eq_nil_or_concat (lexFrom file {} first.toList).tokens with hnone | ⟨ts, t, hts⟩
  · rw [hfeed (lastGap_of_tokens hnone hend), hnone]
    rfl
  · rw [List.concat_eq_append] at hts
    -- the last token is a semicolon of the text, with only a gap behind it
    have hk : t.kind = .semicolon := hclosed t (by rw [hts]; simp)
    have hstands := lexFrom_stands file [] first.toList t (by rw [Position.after_nil, hts]; simp)
    rw [List.nil_append] at hstands
    obtain ⟨before, rest, hwhole, hstart, -⟩ := hstands.covers
    have hlexeme : t.lexeme = ";" := hstands.spelled (by rw [hk]; rfl)
    have hsource : first.toList = before ++ ';' :: rest := by
      rw [← hwhole, hlexeme]
      simp
    rw [hsource] at hts hend ⊢
    have hplace : t.span.start.offset = (({} : Position).after before).offset := by rw [hstart]
    have hcut := lexFrom_divided divides_semicolon divides_semicolon hts hplace
    have htail := hts
    rw [hcut rest, lexFrom_semicolon] at htail hend
    obtain ⟨ht, hnone⟩ := List.cons.inj (List.append_cancel_left htail)
    have hgap := lastGap_of_tokens hnone hend
    have hthere : ({} : Position).after (before ++ ';' :: rest ++ ['\n']) =
        ((({} : Position).after before).after [';']).after (rest ++ ['\n']) := by
      rw [← Position.after_append, ← Position.after_append]
      simp
    rw [hts, hthere, ← ht, List.append_assoc, List.cons_append, hcut, lexFrom_semicolon,
      hfeed hgap]
    simp [Lexed.behind, Lexed.cons, Token.ofWord]

/-- A program that ends in a semicolon, a line feed and more text: the tokens of
the program, and those of the text behind them. -/
theorem tokenize_behind {first second : String} {list list' : TokenList}
    (h : tokenize file first = .ok list) (hclosed : Closed list.tokens)
    (h' : tokenize file second = .ok list') :
    let d := Shift.past (first.toList ++ ['\n'])
    tokenize file (first ++ "\n" ++ second) =
      .ok ⟨list.tokens ++ list'.tokens.map (Token.shift d), list'.stop.shift d⟩ := by
  intro d
  obtain ⟨htokens, hend⟩ := tokenize_eq_ok h
  obtain ⟨htokens', hend'⟩ := tokenize_eq_ok h'
  have hwhole : (first ++ "\n" ++ second).toList = first.toList ++ '\n' :: second.toList := by
    simp
  have hmoved := lexFrom_shift d file {} second.toList
  rw [htokens] at hclosed
  unfold tokenize lex
  rw [hwhole, lex_behind hend hclosed, Position.after_feed]
  dsimp only [Lexed.behind]
  rw [hmoved.2 _ hend', hmoved.1, htokens, htokens']
  rfl

end SamScript
