/-
The tokens of a text tile it. Read from the front, a text is a gap, a token, a
gap, a token, and a gap at the end (`Tiles`), every token placed behind all that
precedes it. The inside of a string literal is tiled once more, by its parts and
with no gap between them (`Token.Parted`).
-/
import SamScript.Proofs.Token.Coordinates
import SamScript.Proofs.Token.Gaps

namespace SamScript

open Utf8 Scan

-- =============================================================== literals

/-- Whether parts of a string literal follow each other end to end, from one
place to another. -/
def StringPart.EndToEnd : Position → List StringPart → Position → Prop
  | p, [], q => p = q
  | p, part :: rest, q => part.span.start = p ∧ EndToEnd part.span.stop rest q

/-- A string literal whose parts tile what is between its quotes. -/
structure Token.Parted (whole : List Char) (t : Token) (quote : Char) : Prop
    extends t.Literal whole quote where
  text_ne : ∀ part ∈ t.parts, part.text ≠ ""
  apart : ∀ a b, [a, b] <:+: t.parts → a.kind = .fragment → b.kind = .escape
  endToEnd : ∃ close : Position, StringPart.EndToEnd (t.span.start.advance quote) t.parts close ∧
    close.advance quote = t.span.stop

/-- No two fragments of a literal stand next to each other. -/
theorem Scan.Pieces.apart {quote : Char} {pieces : List Piece} (h : Pieces quote pieces)
    {a b : Piece} (hab : [a, b] <:+: pieces) (ha : a.1 = .fragment) : b.1 = .escape := by
  induction h with
  | nil => cases List.infix_nil.1 hab
  | @fragment text ps _ _ hnext _ ih =>
    rcases List.infix_cons_iff.1 hab with hab | hab
    · obtain ⟨-, rest, rfl⟩ := List.cons_prefix_cons.1 hab
      exact hnext b rfl
    · exact ih hab
  | @escape tail ps _ _ ih =>
    rcases List.infix_cons_iff.1 hab with hab | hab
    · obtain ⟨rfl, -⟩ := List.cons_prefix_cons.1 hab
      cases ha
    · exact ih hab

namespace Token

theorem placeParts_endToEnd (file : Option String) (p : Position) (pieces : List Piece) :
    StringPart.EndToEnd p (placeParts file p pieces) (p.after (piecesText pieces)) := by
  induction pieces generalizing p with
  | nil => rfl
  | cons piece rest ih =>
    obtain ⟨kind, text⟩ := piece
    refine ⟨rfl, ?_⟩
    rw [piecesText_cons, Position.after_append]
    exact ih (p.after text)

/-- A word that is a string literal is tiled by its parts. -/
theorem ofWord_parted (file : Option String) {before cs : List Char} {c : Char} {w : Word}
    (h : takeWord c cs = .ok w) (hk : w.kind = .string) :
    (ofWord file (({} : Position).after before) w).Parted (before ++ (c :: cs)) c := by
  have hq := takeWord_quoted h hk
  have hwhole := (takeWord_append h).1
  obtain ⟨body, hbody, hsplit⟩ := takeWord_split h hk
  have hpieces := ((takePieces_eq_ok_iff hq.quote_eq).1 hsplit).2
  generalize hp : ({} : Position).after before = p
  have hinside (q : Position) : (placeParts file q w.pieces).map StringPart.piece = w.pieces :=
    pieces_placeParts file q w.pieces
  refine ⟨?_, fun part hpart he => ?_, fun a b hab ha => ?_, ?_⟩
  · rw [← hwhole, ← hp]
    exact ofWord_literal file hq
  · refine hq.pieces_ne_nil part.piece ?_ ?_
    · rw [← hinside]
      exact List.mem_map_of_mem hpart
    · rw [StringPart.piece, he]
      rfl
  · have := hab.map StringPart.piece
    rw [show (ofWord file p w).parts.map StringPart.piece = w.pieces from hinside _] at this
    exact hpieces.apart this ha
  · refine ⟨(p.advance c).after (piecesText w.pieces), ?_, ?_⟩
    · have hopen : p.after (w.lexeme.take 1) = p.advance c := by
        rw [hq.lexeme_eq]
        rfl
      show StringPart.EndToEnd _ (placeParts file (p.after (w.lexeme.take 1)) w.pieces) _
      rw [hopen]
      exact placeParts_endToEnd file _ _
    · show _ = p.after w.lexeme
      rw [hq.lexeme_eq, Position.after_append]
      rfl

end Token

-- ================================================================== texts

/-- Whether tokens tile a text that stands behind another one. -/
inductive Tiles : List Char → List Char → List Token → Prop
  | last {before gap : List Char} : LastGap gap → Tiles before gap []
  | token {before gap rest : List Char} {t : Token} {ts : List Token} : Gap gap →
      t.lexeme ≠ "" → t.span.start.Behind (before ++ gap) →
      t.span.stop.Behind (before ++ gap ++ t.lexeme.toList) →
      Tiles (before ++ gap ++ t.lexeme.toList) rest ts →
      Tiles before (gap ++ t.lexeme.toList ++ rest) (t :: ts)

/-- Behind the last of some tokens that tile a text there is only a gap. -/
theorem Tiles.ending {before cs : List Char} {ts : List Token} (h : Tiles before cs ts) :
    ∃ front gap, cs = front ++ gap ∧ LastGap gap ∧ (ts = [] → front = []) ∧
      ∀ t ∈ ts.getLast?, t.span.stop.Behind (before ++ front) := by
  induction h with
  | @last before gap hgap => exact ⟨[], gap, rfl, hgap, fun _ => rfl, fun _ => nofun⟩
  | @token before gap rest t ts _ _ _ hstop _ ih =>
    obtain ⟨front, after, rfl, hafter, hnone, hlast⟩ := ih
    refine ⟨gap ++ t.lexeme.toList ++ front, after, by simp, hafter, nofun, fun u hu => ?_⟩
    rw [List.getLast?_cons] at hu
    cases hts : ts.getLast? with
    | none =>
      rw [hts] at hu
      cases hu
      rw [hnone (List.getLast?_eq_none_iff.1 hts), List.append_nil, ← List.append_assoc]
      exact hstop
    | some v =>
      rw [hts] at hu
      cases hu
      have hv := hlast v hts
      rwa [List.append_assoc, List.append_assoc, ← List.append_assoc gap] at hv

theorem lexFrom_tiles {file : Option String} (before cs : List Char) {stop : Span}
    (h : (lexFrom file (({} : Position).after before) cs).ending = .ok stop) :
    Tiles before cs (lexFrom file (({} : Position).after before) cs).tokens := by
  generalize hp : ({} : Position).after before = p at h ⊢
  fun_induction lexFrom file p cs generalizing before with
  | case1 => cases h
  | case2 p cs text htrivia =>
    have hcs := takeTrivia_whole cs
    rw [htrivia, Trivia.whole, List.append_nil] at hcs
    rw [← hcs]
    exact .last (takeTrivia_skipped htrivia).2
  | case3 => cases h
  | case4 p cs text c rest htrivia w hw ih =>
    subst hp
    have hcs := takeTrivia_whole cs
    rw [htrivia, Trivia.whole] at hcs
    obtain ⟨hword, hne⟩ := takeWord_append hw
    have hplace : (({} : Position).after before).after text = ({} : Position).after (before ++ text) :=
      (Position.after_append _ _ _).symm
    have hrest := ih (before ++ text ++ w.lexeme) (by rw [Position.after_append, ← hplace]) h
    rw [hplace] at hrest ⊢
    -- the token of the word, with its text as the word has it
    generalize ht : Token.ofWord file (({} : Position).after (before ++ text)) w = t
    have hlexeme : t.lexeme.toList = w.lexeme := by
      rw [← ht]
      exact String.toList_ofList
    rw [← hcs, ← hword, ← List.append_assoc, ← hlexeme]
    rw [← hlexeme] at hne hrest
    refine .token ((takeTrivia_skipped htrivia).1 (List.cons_ne_nil _ _)) (fun he => hne ?_) ?_ ?_
      hrest
    · rw [he]
      rfl
    · rw [← ht]
      exact Position.behind_after (before ++ text)
    · rw [hlexeme, ← ht]
      show ((({} : Position).after (before ++ text)).after w.lexeme).Behind _
      rw [← Position.after_append]
      exact Position.behind_after _

-- ============================================================== programs

theorem tokenize_tiles {file : Option String} {source : String} {list : TokenList}
    (h : tokenize file source = .ok list) : Tiles [] source.toList list.tokens := by
  obtain ⟨htokens, hend⟩ := tokenize_eq_ok h
  rw [htokens]
  exact lexFrom_tiles [] source.toList hend

/-- The string literals of a program are tiled by their parts. -/
theorem tokenize_parted {file : Option String} {source : String} {list : TokenList}
    (h : tokenize file source = .ok list) :
    ∀ t ∈ list.tokens, t.kind = .string → ∃ quote, t.Parted source.toList quote := by
  intro t ht hk
  rw [(tokenize_eq_ok h).1] at ht
  obtain ⟨front, c, rest, w, hwhole, hw, rfl⟩ := lexFrom_words file [] source.toList t ht
  rw [← List.nil_append source.toList, ← hwhole]
  exact ⟨c, Token.ofWord_parted file hw hk⟩

/-- The tokens of a program tile its text. They follow each other, the end of the
program is an empty stretch behind the whole text, the bytes between the two ends
of a token are those of its lexeme, and a string literal is tiled by its parts,
each of them again at its place and with its own bytes. -/
theorem tokens_tile_the_source (file : Option String) (source : String) (list : TokenList)
    (h : tokenize file source = .ok list) :
    Tiles [] source.toList list.tokens ∧
    InOrder 0 (encode source.toList).length (list.tokens.map (·.span.extent)) ∧
    (list.stop.start.Behind source.toList ∧ list.stop.stop.Behind source.toList) ∧
    ∀ t ∈ list.tokens,
      slice (encode source.toList) t.span.start.offset t.span.stop.offset
        = encode t.lexeme.toList ∧
      (t.kind = .string → ∃ quote, t.Parted source.toList quote ∧
        ∀ part ∈ t.parts, part.span.PointsInto source.toList ∧
          slice (encode source.toList) part.span.start.offset part.span.stop.offset
            = encode part.text.toList) := by
  obtain ⟨hin, hstands, -⟩ := tokenize_places h
  refine ⟨tokenize_tiles h, ?_, ?_, fun t ht => ⟨(hstands t ht).covers.slice_eq, fun hk => ?_⟩⟩
  · rw [length_encode]
    exact hin
  · rw [lexFrom_stop (tokenize_eq_ok h).2]
    exact ⟨Position.behind_after _, Position.behind_after _⟩
  · obtain ⟨quote, hparted⟩ := tokenize_parted h t ht hk
    refine ⟨quote, hparted, fun part hpart => ?_⟩
    have hcovers := hparted.parts_covers part hpart
    exact ⟨hcovers.pointsInto, hcovers.slice_eq⟩

/-- Comments of both sorts, a character of two bytes, a literal of three parts, and
a last comment that no line feed ends. -/
theorem tokens_tile_the_source_comments :
    let source := "/* é\n*/ x = \"é\\n\\u\x7b41\x7d\"; // end"
    ∃ list, tokenize none source = .ok list ∧
      list.tokens.map (·.kind) = [.identifier, .assign, .string, .semicolon] ∧
      list.tokens.map (·.parts.length) = [0, 0, 3, 0] ∧
      Tiles [] source.toList list.tokens := by
  intro source
  have hrun : (match tokenize none source with
      | .ok list => list.tokens.map (·.kind) = [.identifier, .assign, .string, .semicolon] &&
          list.tokens.map (·.parts.length) = [0, 0, 3, 0]
      | .error _ => false) = true := by
    decide +kernel
  rcases htokens : tokenize none source with e | list
  · rw [htokens] at hrun
    cases hrun
  · rw [htokens, Bool.and_eq_true, decide_eq_true_eq, decide_eq_true_eq] at hrun
    exact ⟨list, rfl, hrun.1, hrun.2, (tokens_tile_the_source none source list htokens).1⟩

end SamScript
