/-
The pieces of string literals. `Pieces` says what can stand between two
quotes, and the scanner splits a literal in just that way
(`takePieces_eq_ok_iff`). How far an escape sequence reaches is decided by
one character more at most (`IsEscape`), and that character still belongs to
the literal, be it its closing quote; so the pieces depend on the literal
alone, whatever comes after it.
-/
import SamScript.Proofs.Token.Places
import SamScript.Token.Lexer

namespace SamScript

namespace Scan

open Decimal

-- ================================================================ prefixes

section

variable {p : Char → Bool} {cs taken rest : List Char}

/-- Whether a text does not go on with a character of a class. -/
def Stops (p : Char → Bool) (rest : List Char) : Prop :=
  ∀ c ∈ rest.head?, p c = false

theorem Stops.cons {c : Char} (h : p c = false) : Stops p (c :: rest) := by
  intro d hd
  rw [← Option.mem_some.1 hd, h]

theorem Stops.mono {q : Char → Bool} (h : Stops p rest) (hq : ∀ c, p c = false → q c = false) :
    Stops q rest :=
  fun c hc => hq c (h c hc)

theorem Stops.head {c : Char} (h : Stops p (c :: rest)) : p c = false :=
  h c rfl

/-- A run of characters of a class, and what comes after it. -/
theorem takeWhile_eq_iff : cs.takeWhile p = taken ∧ cs.dropWhile p = rest ↔
    cs = taken ++ rest ∧ (∀ c ∈ taken, p c = true) ∧ Stops p rest := by
  constructor
  · rintro ⟨rfl, rfl⟩
    refine ⟨List.takeWhile_append_dropWhile.symm, ?_, fun c hc => ?_⟩
    · exact List.all_eq_true.1 List.all_takeWhile
    · have := List.head?_dropWhile_not p cs
      rw [Option.mem_def.1 hc] at this
      simpa using this
  · rintro ⟨rfl, htaken, hstops⟩
    rw [List.takeWhile_append_of_pos htaken, List.dropWhile_append_of_pos htaken]
    cases rest with
    | nil => exact ⟨List.append_nil _, rfl⟩
    | cons c rest =>
      have hc : ¬ p c = true := by simp [hstops.head]
      rw [List.takeWhile_cons_of_neg hc, List.dropWhile_cons_of_neg hc]
      exact ⟨List.append_nil _, rfl⟩

/-- The same where a run may be no longer than a number. -/
theorem takeUpTo_eq_iff {n : Nat} : takeUpTo n p cs = (taken, rest) ↔
    cs = taken ++ rest ∧ (∀ c ∈ taken, p c = true) ∧ taken.length ≤ n ∧
      (taken.length < n → Stops p rest) := by
  constructor
  · intro h
    obtain ⟨htaken, hrest⟩ := Prod.mk.inj h
    have happend := takeUpTo_append n p cs
    rw [h] at happend
    obtain ⟨hsplit, hall, hstops⟩ := takeWhile_eq_iff.1 (⟨htaken, rfl⟩ :
      (cs.take n).takeWhile p = taken ∧ (cs.take n).dropWhile p = (cs.take n).dropWhile p)
    have hlength : taken.length ≤ n := by
      have := congrArg List.length hsplit
      rw [List.length_append] at this
      have := List.length_take_le n cs
      omega
    refine ⟨happend.symm, hall, hlength, fun hlt => ?_⟩
    -- the run ended inside the first `n` characters
    generalize (cs.take n).dropWhile p = left at hsplit hstops
    rw [← happend, List.take_append, List.take_of_length_le hlength,
      List.append_cancel_left_eq] at hsplit
    subst hsplit
    cases rest with
    | nil => exact fun c hc => nomatch hc
    | cons c rest =>
      obtain ⟨k, hk⟩ := Nat.exists_eq_succ_of_ne_zero (Nat.sub_ne_zero_of_lt hlt)
      rw [hk, List.take_succ_cons] at hstops
      exact .cons hstops.head
  · rintro ⟨rfl, hall, hlength, hstops⟩
    have hstops' : Stops p (rest.take (n - taken.length)) := by
      intro c hc
      cases hk : n - taken.length with
      | zero =>
        rw [hk] at hc
        cases hc
      | succ k =>
        refine hstops (by omega) c ?_
        rw [hk] at hc
        cases rest with
        | nil => cases hc
        | cons d rest => exact hc
    have hrun := (takeWhile_eq_iff.2 ⟨rfl, hall, hstops'⟩).1
    unfold takeUpTo
    rw [List.take_append, List.take_of_length_le hlength, hrun, List.drop_left]

end

-- ================================================================= escapes

/-- What can follow a backslash, up to the character `next`: an escape
sequence is as long as it can be. -/
inductive IsEscape : List Char → Char → Prop
  | one {c next : Char} : c ≠ '\n' → c ≠ 'x' → c ≠ 'u' → IsEscape [c] next
  | hex {digits : List Char} {next : Char} : (∀ d ∈ digits, isHexDigit d = true) →
      digits.length ≤ 2 → (digits.length < 2 → isHexDigit next = false) →
      IsEscape ('x' :: digits) next
  | unicode {digits : List Char} {next : Char} : (∀ d ∈ digits, isHexDigit d = true) →
      digits.length ≤ 4 → (digits.length < 4 → isHexDigit next = false) →
      (digits = [] → next ≠ '\x7b') → IsEscape ('u' :: digits) next
  | braced {digits : List Char} {next : Char} : (∀ d ∈ digits, isHexDigit d = true) →
      IsEscape ('u' :: '\x7b' :: (digits ++ ['\x7d'])) next
  | unclosed {digits : List Char} {next : Char} : (∀ d ∈ digits, isHexDigit d = true) →
      isHexDigit next = false → next ≠ '\x7d' → IsEscape ('u' :: '\x7b' :: digits) next

/-- Escape sequences are split off whole. -/
theorem takeEscape_eq {tail : List Char} {next : Char} (h : IsEscape tail next) (r : List Char) :
    takeEscape (tail ++ next :: r) = (tail, next :: r) := by
  cases h with
  | @one c _ hline hx hu =>
    rw [List.cons_append, List.nil_append, takeEscape]
    · exact hline
    · exact hx
    · exact fun _ hc _ => hu hc
    · exact hu
  | hex hall hlength hstops =>
    have hdigits := takeUpTo_eq_iff.2 ⟨rfl, hall, hlength, fun hlt => (.cons (hstops hlt) :
      Stops isHexDigit (next :: r))⟩
    rw [List.cons_append, takeEscape, hdigits]
  | @unicode digits _ hall hlength hstops hbrace =>
    have hdigits := takeUpTo_eq_iff.2 ⟨rfl, hall, hlength, fun hlt => (.cons (hstops hlt) :
      Stops isHexDigit (next :: r))⟩
    rw [List.cons_append, takeEscape, hdigits]
    intro after hafter
    cases digits with
    | nil => exact hbrace rfl (List.cons.inj hafter).1
    | cons d digits =>
      rw [List.forall_mem_cons, (List.cons.inj hafter).1] at hall
      exact absurd hall.1 (by decide)
  | @braced digits _ hall =>
    have hdigits := takeWhile_eq_iff.2 ⟨rfl, hall, (.cons rfl :
      Stops isHexDigit ('\x7d' :: next :: r))⟩
    simp [takeEscape, hdigits]
  | unclosed hall hstops hbrace =>
    have hdigits := takeWhile_eq_iff.2 ⟨rfl, hall, (.cons hstops : Stops isHexDigit (next :: r))⟩
    simp [takeEscape, hdigits, hbrace]

/-- What is split off before a character other than a line feed is an escape
sequence. -/
theorem isEscape_of_takeEscape {cs tail r : List Char} {next : Char}
    (h : takeEscape cs = (tail, next :: r)) (hnext : next ≠ '\n') : IsEscape tail next := by
  have hdigits {n : Nat} {rest : List Char} (he : (takeUpTo n isHexDigit rest).2 = next :: r) :
      (∀ d ∈ (takeUpTo n isHexDigit rest).1, isHexDigit d = true) ∧
        (takeUpTo n isHexDigit rest).1.length ≤ n ∧
        ((takeUpTo n isHexDigit rest).1.length < n → isHexDigit next = false) := by
    obtain ⟨-, hall, hlength, hstops⟩ := takeUpTo_eq_iff.1 (Prod.ext rfl he :
      takeUpTo n isHexDigit rest = ((takeUpTo n isHexDigit rest).1, next :: r))
    exact ⟨hall, hlength, fun hlt => (hstops hlt).head⟩
  unfold takeEscape at h
  split at h
  · cases h
  · cases h
    exact absurd rfl hnext
  · obtain ⟨rfl, he⟩ := Prod.mk.inj h
    obtain ⟨hall, hlength, hstops⟩ := hdigits he
    exact .hex hall hlength hstops
  · rename_i rest
    split at h
    · rename_i after hd
      obtain ⟨rfl, -⟩ := Prod.mk.inj h
      exact .braced (takeWhile_eq_iff.1 ⟨rfl, hd⟩).2.1
    · rename_i hd
      obtain ⟨rfl, he⟩ := Prod.mk.inj h
      obtain ⟨-, hall, hstops⟩ := takeWhile_eq_iff.1 ⟨rfl, he⟩
      exact .unclosed hall hstops.head fun hbrace => hd r (hbrace ▸ he)
  · rename_i rest hne
    obtain ⟨rfl, he⟩ := Prod.mk.inj h
    obtain ⟨hall, hlength, hstops⟩ := hdigits he
    refine .unicode hall hlength hstops fun hnil hbrace => ?_
    have happend := takeUpTo_append 4 isHexDigit rest
    rw [hnil, he, hbrace] at happend
    exact hne r happend.symm
  · rename_i c rest hline hx hbrace hu
    cases h
    exact .one hline hx hu

-- ================================================================= literals

theorem piecesText_cons (p : Piece) (ps : List Piece) :
    piecesText (p :: ps) = p.2 ++ piecesText ps :=
  rfl

/-- The first character of some pieces, or else the quote after them. -/
def nextChar (quote : Char) (ps : List Piece) : Char :=
  (piecesText ps).head?.getD quote

theorem exists_nextChar (quote : Char) (ps : List Piece) (rest : List Char) :
    ∃ r, piecesText ps ++ quote :: rest = nextChar quote ps :: r := by
  unfold nextChar
  cases piecesText ps with
  | nil => exact ⟨rest, rfl⟩
  | cons c text => exact ⟨text ++ quote :: rest, rfl⟩

/-- What can stand between two quotes: fragments of plain characters, no two
in a row, and escape sequences. -/
inductive Pieces (quote : Char) : List Piece → Prop
  | nil : Pieces quote []
  | fragment {text : List Char} {ps : List Piece} : text ≠ [] →
      (∀ c ∈ text, isPlain quote c = true) → (∀ p ∈ ps.head?, p.1 = .escape) → Pieces quote ps →
      Pieces quote ((.fragment, text) :: ps)
  | escape {tail : List Char} {ps : List Piece} : IsEscape tail (nextChar quote ps) →
      Pieces quote ps → Pieces quote ((.escape, '\\' :: tail) :: ps)

theorem Pieces.nextChar_ne {quote : Char} {ps : List Piece} (h : Pieces quote ps)
    (hquote : quote ≠ '\n') : nextChar quote ps ≠ '\n' := by
  cases h with
  | nil => exact hquote
  | @fragment text ps hne hplain _ _ =>
    cases text with
    | nil => exact absurd rfl hne
    | cons c text =>
      have hc := hplain c List.mem_cons_self
      rw [isPlain, Bool.and_eq_true, Bool.and_eq_true, decide_eq_true_eq, decide_eq_true_eq] at hc
      exact hc.1.2
  | escape => exact (by decide : '\\' ≠ '\n')

theorem Pieces.fragment_append {quote : Char} {text : List Char} {ps : List Piece}
    (hplain : ∀ c ∈ text, isPlain quote c = true) (hps : ∀ p ∈ ps.head?, p.1 = .escape)
    (h : Pieces quote ps) : Pieces quote (Scan.fragment text ++ ps) := by
  unfold Scan.fragment
  split
  · exact h
  · rename_i hne
    exact .fragment (fun he => hne (List.isEmpty_iff.2 he)) hplain hps h

section

variable {quote : Char} {cs after rest : List Char} {pieces : List Piece}

theorem takePieces_escape (hd : cs.dropWhile (isPlain quote) = '\\' :: after)
    (hr : takePieces quote (takeEscape after).2 = .ok (pieces, rest)) :
    takePieces quote cs = .ok (fragment (cs.takeWhile (isPlain quote))
      ++ (.escape, '\\' :: (takeEscape after).1) :: pieces, rest) := by
  rw [takePieces]
  split
  · rename_i h
    cases hd.symm.trans h
  · rename_i h
    cases hd.symm.trans h
    rw [hr]
  · rename_i hne h
    cases hd.symm.trans h
    exact absurd rfl hne

theorem takePieces_close (hd : cs.dropWhile (isPlain quote) = quote :: after)
    (hquote : quote ≠ '\\') :
    takePieces quote cs = .ok (fragment (cs.takeWhile (isPlain quote)), after) := by
  rw [takePieces]
  split
  · rename_i h
    cases hd.symm.trans h
  · rename_i h
    exact absurd (List.cons.inj (hd.symm.trans h)).1 hquote
  · rename_i h
    cases hd.symm.trans h
    rw [if_pos rfl]

/-- Plain characters and pieces are split apart again, whatever comes after
the quote. -/
theorem takePieces_append_eq (hquote : quote ≠ '\\') (h : Pieces quote pieces) :
    ∀ text, (∀ c ∈ text, isPlain quote c = true) →
      (text ≠ [] → ∀ p ∈ pieces.head?, p.1 = .escape) →
      takePieces quote (text ++ (piecesText pieces ++ quote :: rest)) =
        .ok (fragment text ++ pieces, rest) := by
  have hstop (c : Char) (hc : c = quote ∨ c = '\\') (r : List Char) :
      Stops (isPlain quote) (c :: r) := by
    refine .cons ?_
    rcases hc with rfl | rfl <;> simp [isPlain]
  induction h with
  | nil =>
    intro text hplain _
    have hrun := takeWhile_eq_iff.2 ⟨rfl, hplain, hstop quote (.inl rfl) rest⟩
    show takePieces quote (text ++ quote :: rest) = _
    rw [takePieces_close hrun.2 hquote, hrun.1, List.append_nil]
  | @fragment part ps hne hpart hps _ ih =>
    intro text _ hhead
    -- a fragment stands by itself
    have htext : text = [] := by
      cases text with
      | nil => rfl
      | cons => cases hhead (List.cons_ne_nil _ _) _ rfl
    have hfragment : fragment part = [(.fragment, part)] :=
      if_neg fun he => hne (List.isEmpty_iff.1 he)
    have := ih part hpart fun _ => hps
    rw [hfragment, ← List.append_assoc] at this
    rw [htext]
    exact this
  | @escape tail ps htail hps ih =>
    intro text hplain _
    have hrest : takeEscape (tail ++ (piecesText ps ++ quote :: rest)) =
        (tail, piecesText ps ++ quote :: rest) := by
      obtain ⟨r, hr⟩ := exists_nextChar quote ps rest
      rw [hr]
      exact takeEscape_eq htail r
    have hrun := takeWhile_eq_iff.2 ⟨rfl, hplain, hstop '\\' (.inr rfl)
      (tail ++ (piecesText ps ++ quote :: rest))⟩
    have hmore := ih [] (fun _ hc => absurd hc List.not_mem_nil) fun hne => absurd rfl hne
    rw [piecesText_cons, List.cons_append, List.cons_append, List.append_assoc,
      takePieces_escape hrun.2 (by rw [hrest]; exact hmore), hrun.1, hrest]
    rfl

/-- A string literal after its first quote is pieces and the quote. -/
theorem takePieces_eq_ok_iff (hquote : quote = '"' ∨ quote = '\'') :
    takePieces quote cs = .ok (pieces, rest) ↔
      cs = piecesText pieces ++ quote :: rest ∧ Pieces quote pieces := by
  constructor
  · intro h
    refine ⟨(takePieces_append h).symm, ?_⟩
    have hline : quote ≠ '\n' := by
      rcases hquote with rfl | rfl <;> decide
    fun_induction takePieces quote cs generalizing pieces rest with
    | case1 => cases h
    | case2 => cases h
    | case3 cs after hd ps left hr ih =>
      cases h
      have hps := ih hr
      refine .fragment_append (takeWhile_eq_iff.1 ⟨rfl, hd⟩).2.1
        (fun p hp => by rw [← Option.mem_some.1 hp]) (.escape ?_ hps)
      obtain ⟨r, hnext⟩ := exists_nextChar quote ps left
      rw [takePieces_append hr] at hnext
      exact isEscape_of_takeEscape (Prod.ext rfl hnext) (hps.nextChar_ne hline)
    | case4 cs after _ hd =>
      cases h
      have := Pieces.nil.fragment_append (takeWhile_eq_iff.1 ⟨rfl, hd⟩).2.1
        fun _ hp => absurd hp (Option.not_mem_none _)
      rwa [List.append_nil] at this
    | case5 => cases h
  · rintro ⟨rfl, hpieces⟩
    have hescape : quote ≠ '\\' := by
      rcases hquote with rfl | rfl <;> decide
    exact takePieces_append_eq hescape hpieces [] (fun _ hc => absurd hc List.not_mem_nil)
      fun hne => absurd rfl hne

/-- A word that is a string literal is split into its pieces by itself. -/
theorem takeWord_split {c : Char} {w : Word} (h : takeWord c cs = .ok w)
    (hk : w.kind = .string) :
    ∃ body, w.lexeme = c :: body ∧ takePieces c body = .ok (w.pieces, []) := by
  have hq := takeWord_quoted h hk
  unfold takeWord at h
  rw [if_pos hq.quote_eq] at h
  split at h
  · cases h
  · rename_i hp
    cases h
    have hpieces := ((takePieces_eq_ok_iff hq.quote_eq).1 hp).2
    exact ⟨_, rfl, (takePieces_eq_ok_iff hq.quote_eq).2 ⟨rfl, hpieces⟩⟩

end

end Scan

-- ================================================================= tokens

/-- A piece of a string literal without its place. -/
def StringPart.piece (part : StringPart) : Scan.Piece :=
  (part.kind, part.text.toList)

namespace Token

/-- The pieces of a string literal without their places. -/
def pieces (t : Token) : List Scan.Piece :=
  t.parts.map StringPart.piece

/-- Whether a token, if it is a string literal, is split into pieces the way
its lexeme says. -/
def Split (t : Token) : Prop :=
  t.kind = .string → ∃ quote body, t.lexeme.toList = quote :: body ∧
    Scan.takePieces quote body = .ok (t.pieces, [])

theorem pieces_placeParts (file : Option String) (p : Position) (pieces : List Scan.Piece) :
    (placeParts file p pieces).map StringPart.piece = pieces := by
  induction pieces generalizing p with
  | nil => rfl
  | cons piece rest ih =>
    obtain ⟨kind, text⟩ := piece
    rw [placeParts, List.map_cons, ih, StringPart.piece, String.toList_ofList]

theorem ofWord_split (file : Option String) (p : Position) {c : Char} {cs : List Char}
    {w : Scan.Word} (h : Scan.takeWord c cs = .ok w) : (ofWord file p w).Split := by
  intro hk
  obtain ⟨body, hlexeme, hpieces⟩ := Scan.takeWord_split h hk
  refine ⟨c, body, ?_, ?_⟩
  · show (String.ofList w.lexeme).toList = _
    rw [String.toList_ofList, hlexeme]
  · show _ = Except.ok ((placeParts _ _ _).map _, _)
    rw [pieces_placeParts, hpieces]

/-- String literals of one lexeme have the same pieces. -/
theorem Split.pieces_eq {t u : Token} (ht : t.Split) (hu : u.Split) (hk : t.kind = .string)
    (hkind : u.kind = t.kind) (hlexeme : u.lexeme = t.lexeme) : u.pieces = t.pieces := by
  obtain ⟨quote, body, hbody, hpieces⟩ := ht hk
  obtain ⟨quote', body', hbody', hpieces'⟩ := hu (hkind.trans hk)
  rw [hlexeme, hbody] at hbody'
  cases hbody'
  exact (Prod.mk.inj (Except.ok.inj (hpieces'.symm.trans hpieces))).1

end Token

/-- The string literals of a text are split the way their lexemes say. -/
theorem lexFrom_split (file : Option String) (p : Position) (cs : List Char) :
    ∀ t ∈ (lexFrom file p cs).tokens, t.Split := by
  fun_induction lexFrom file p cs with
  | case1 => exact fun t h => absurd h List.not_mem_nil
  | case2 => exact fun t h => absurd h List.not_mem_nil
  | case3 => exact fun t h => absurd h List.not_mem_nil
  | case4 p cs text c rest htrivia w hw ih =>
    exact List.forall_mem_cons.2 ⟨Token.ofWord_split file _ hw, ih⟩

theorem tokenize_split {file : Option String} {source : String} {list : TokenList}
    (h : tokenize file source = .ok list) : ∀ t ∈ list.tokens, t.Split := by
  rw [(tokenize_eq_ok h).1]
  exact lexFrom_split file {} source.toList

end SamScript
