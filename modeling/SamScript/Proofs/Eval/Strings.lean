/-
String literals come to what they spell. A text of which each character is spelled in any
of the ways there are, between quotes of either sort, is one token that covers all of it
(`tokenize_literal`). As a program it is one expression (`program_string`), which comes to
the text wherever and whenever it is evaluated.
-/
import SamScript.Proofs.Eval.Literals
import SamScript.Proofs.Tree.Levels
import SamScript.Proofs.Tree.Readback
import SamScript.Proofs.Token.Coordinates
import SamScript.Proofs.Value.Spellings

namespace SamScript

open Scan SamScript.Parser

-- =================================================================== tokens

/-- A string literal as the only token of a text. -/
def StringLiteral.token (x : StringLiteral) (file : Option String) : Token :=
  Token.ofWord file {} ⟨.string, x.text, x.pieces, []⟩

/-- The end of a text that is a string literal. -/
def StringLiteral.stop (x : StringLiteral) (file : Option String) : Span :=
  ⟨({} : Position).after x.text, ({} : Position).after x.text, file⟩

variable (x : StringLiteral) (file : Option String)

theorem tokenize_literal : tokenize file (String.ofList x.text) =
    .ok ⟨[x.token file], x.stop file⟩ := by
  obtain ⟨c, cs, htext, htrivia, hword⟩ : (Lexeme.string x).Splits [] :=
    (Lexeme.string x).splits_spaced fun _ => nofun
  rw [List.append_nil] at htext
  have hcs : x.text = c :: cs := htext
  unfold tokenize lex
  rw [String.toList_ofList]
  conv => lhs; rw [hcs]
  rw [lexFrom_word file {} htrivia hword]
  dsimp only
  rw [lexFrom_nil]
  rfl

-- ==================================================================== trees

/-- The node of a string literal as an expression. -/
def Node.ofString (t : Token) : Node :=
  .branch .literal (stringNode t) []

theorem expression_string {stop : Span} {t : Token} (hk : t.kind = .string) :
    expression stop [t] = .ok ⟨.ofString t, [], Nat.zero_lt_one⟩ := by
  have hprimary : primary stop [t] = .ok ⟨.ofString t, [], Nat.zero_lt_one⟩ := by
    rw [primary.eq_def]
    dsimp only
    rw [hk]
    rfl
  rw [expression, binary, postfixExpr, hprimary]
  dsimp only [bind, Except.bind]
  rw [suffixes]
  dsimp only
  rw [operators]

/-- A string literal by itself is a program of one expression. -/
theorem program_string {stop : Span} {t : Token} (hk : t.kind = .string) :
    program ⟨[t], stop⟩ =
      .ok (rootNode stop [] [.branch .expressionStatement (.ofString t) []]) := by
  have hstatement : statement stop [t] =
      .ok ⟨.branch .expressionStatement (.ofString t) [], [], Nat.zero_lt_one⟩ := by
    rw [statement.eq_def]
    dsimp only
    rw [hk]
    dsimp only
    rw [plainStatement_eq Heads.nil, expressionStatement, expression_string hk]
    rfl
  have hstatements : statements stop [t] =
      .ok [.branch .expressionStatement (.ofString t) []] := by
    rw [statements, hstatement]
    dsimp only [bind, Except.bind]
    rw [statements]
    rfl
  have hnone : t.kind ≠ .interface_ := by
    rw [hk]
    decide
  rw [program, interfaces, if_neg hnone]
  dsimp only [bind, Except.bind]
  rw [hstatements]
  rfl

/-- The tree of a text that is a string literal. -/
def StringLiteral.tree (x : StringLiteral) (file : Option String) : Tree :=
  ⟨rootNode (x.stop file) [] [.branch .expressionStatement (.ofString (x.token file)) []],
    Utf8.encode x.text⟩

theorem ofSource_literal (bounds : Bounds) :
    Tree.ofSource bounds file (String.ofList x.text) = .ok (x.tree file) := by
  have hdeep : deepest 0 (0, none) [x.token file] = (0, none) := rfl
  have hwithin : programWithin bounds.brackets ⟨[x.token file], x.stop file⟩ =
      program ⟨[x.token file], x.stop file⟩ :=
    programWithin_of_deepest_le fun limit _ => by rw [hdeep]; exact Nat.zero_le limit
  unfold Tree.ofSource
  rw [tokenize_literal, String.toList_ofList]
  dsimp only
  rw [hwithin, program_string rfl]
  rfl

theorem sketch_literal : (Node.ofString (x.token file)).sketch (Utf8.encode x.text) =
    .branch .literal [.string x.quote x.pieces] := by
  have hstands := (tokenize_places (tokenize_literal x file)).2.1 _ List.mem_cons_self
  rw [String.toList_ofList] at hstands
  obtain ⟨quote, hliteral⟩ := hstands.literal rfl
  have hquote : quote = x.quote := by
    have hlexeme := hliteral.lexeme_eq
    exact (List.cons.inj ((String.toList_ofList (l := x.text)).symm.trans hlexeme)).1.symm
  have hpieces : (x.token file).pieces = x.pieces := Token.pieces_placeParts file _ _
  rw [Node.ofString, Node.sketch_branch rfl, List.map_singleton, hstands.sketch_string hliteral,
    hquote, hpieces]

-- =================================================================== values

/-- Whether a text is one string token that covers all of it, and by itself a program of
one expression over that token, which comes to a string and changes nothing. -/
def ComesToString (bounds : Bounds) (file : Option String) (text : List Char) (s : String) :
    Prop :=
  ∃ t stop tree, tokenize file (String.ofList text) = .ok ⟨[t], stop⟩ ∧
    t.kind = .string ∧ t.lexeme = String.ofList text ∧
    t.span.start.Behind [] ∧ t.span.stop.Behind text ∧
    Tree.ofSource bounds file (String.ofList text) = .ok tree ∧
    tree.root.children = [.branch .expressionStatement (.ofString t) []] ∧
    ∀ (env : Env) (call : Eval.Caller) (state : RunState), env.source = tree.source →
      Eval.valueOf env call (.ofString t) state = (.ok (.string s), state)

/-- A string literal comes to what its pieces stand for. -/
theorem comesToString_literal (bounds : Bounds) :
    ComesToString bounds file x.text (String.ofList (Literal.decodePieces x.pieces)) := by
  refine ⟨x.token file, x.stop file, x.tree file, tokenize_literal x file, rfl, rfl,
    Position.behind_after [], Position.behind_after x.text, ofSource_literal x file bounds, rfl,
    fun env call state henv => ?_⟩
  have hsketch := sketch_literal x file
  rw [show Utf8.encode x.text = env.source from henv.symm] at hsketch
  obtain ⟨hk, hchildren⟩ := of_sketch_branch hsketch
  exact Eval.valueOf_literal hk.2 (Eval.literal_string hchildren) state

/-- Every spelling of a text comes to the text: between quotes of either sort, each of its
characters can be spelled in any way. -/
theorem every_spelling_comes_to_its_text (quote : Char) (hquote : quote = '"' ∨ quote = '\'')
    (s : String) (spellings : List (List Char))
    (h : List.Forall₂ (Spelling quote) s.toList spellings) (bounds : Bounds)
    (file : Option String) :
    ComesToString bounds file (quote :: spellings.flatten ++ [quote]) s := by
  obtain ⟨x, htext, hdecode⟩ := Literal.exists_literal_spelled hquote h
  have hcomes := comesToString_literal x file bounds
  rwa [hdecode, String.ofList_toList, htext] at hcomes

/-- Escape sequences in front of digits and braces that could belong to them, a quote of
either sort, and a code with more zeros than it needs. -/
theorem every_spelling_comes_to_its_text_mixed :
    let s := "A4\n\"'é1😀\x7dq"
    let spellings := ["\\x41", "4", "\\n", "\\\"", "'", "\\u00E9", "1", "\\u\x7b0001f600\x7d", "\x7d",
      "\\q"].map String.toList
    List.Forall₂ (Spelling '"') s.toList spellings ∧
      ComesToString {} none ('"' :: spellings.flatten ++ ['"']) s := by
  intro s spellings
  have hchars : "A4\n\"'é1😀\x7dq".toList =
      ['A', '4', '\n', '"', '\'', 'é', '1', '😀', '\x7d', 'q'] := by
    decide
  have hspelled : List.Forall₂ (Spelling '"') s.toList spellings := by
    rw [show s.toList = _ from hchars]
    refine .cons (.hex (List.all_eq_true.1 (by decide)) rfl (by decide)) ?_
    refine .cons (.plain (by decide) (by decide) (by decide)) ?_
    refine .cons (.letter (by decide)) ?_
    refine .cons (.letter (by decide)) ?_
    refine .cons (.plain (by decide) (by decide) (by decide)) ?_
    refine .cons (.unicode (List.all_eq_true.1 (by decide)) rfl (by decide)) ?_
    refine .cons (.plain (by decide) (by decide) (by decide)) ?_
    refine .cons (@Spelling.braced _ _ "0001f600".toList (List.all_eq_true.1 (by decide)) (by decide)
      (by decide)) ?_
    refine .cons (.plain (by decide) (by decide) (by decide)) ?_
    exact .cons (.escaped (by decide)) .nil
  exact ⟨hspelled, every_spelling_comes_to_its_text '"' (.inl rfl) s spellings hspelled {} none⟩

end SamScript
