/-
Which semicolons are optional. By the rule for ends of statements a semicolon
may be left out before a closing brace, at the end of the program, and behind a
closing brace (`MayBeLeftOut`). With a space in its place the program still
parses, and to a tree with the same named structure, as long as nothing follows
that the parser can take for more of the statement: an opening parenthesis or a
`-` (`semicolon_may_be_left_out`). Behind a closing brace these do follow, and
the tree is another one (`semicolon_keeps_statements_apart`).
-/
import SamScript.Proofs.Token.Divide
import SamScript.Proofs.Tree.Endings
import SamScript.Proofs.Tree.Seam
import SamScript.Tree.OfSource

namespace SamScript

open SamScript.Parser Utf8 Akin

/-- The rule for ends of statements: whether a semicolon between some tokens and
others may be left out. -/
def MayBeLeftOut (ts us : List Token) : Prop :=
  Heads (· = .rbrace) us ∨ ts.getLast?.any (·.kind = .rbrace)

namespace Parser

/-- What can begin behind a semicolon stops an expression, but for a parenthesis
and a sign. -/
theorem stops_of_beginnings {us : List Token} (h : Heads (· ∈ beginnings) us)
    (hnext : Heads (fun k => k ≠ .lparen ∧ k ≠ .minus) us) : Heads (· ∈ stoppers) us := by
  have hkinds : ∀ k ∈ beginnings, k ≠ .lparen → k ≠ .minus → k ∈ stoppers := by decide
  intro t ht
  exact hkinds _ (h t ht) (hnext t ht).1 (hnext t ht).2

/-- Tokens without a semicolon that may be left out are parsed to a tree of the
same named structure. -/
theorem programWithin_without {limit : Option Nat} {ts us : List Token} {semicolon : Token}
    {stop : Span} {root : Node} (h : programWithin limit ⟨ts ++ semicolon :: us, stop⟩ = .ok root)
    (hk : semicolon.kind = .semicolon) (hrule : MayBeLeftOut ts us)
    (hnext : Heads (fun k => k ≠ .lparen ∧ k ≠ .minus) us) :
    ∃ root', programWithin limit ⟨ts ++ us, stop⟩ = .ok root' ∧ root'.sexp = root.sexp := by
  have hpunctuated : Punctuated (ts ++ semicolon :: us) := program_punctuated (program_of_within h)
  let s : Seam := ⟨ts, semicolon, us, hk, hrule, stops_of_beginnings (hpunctuated.heads hk) hnext⟩
  have hends : EndsAlike False (fun n m => Akin [n] [m])
      (programWithin limit ⟨ts ++ semicolon :: us, stop⟩) (programWithin limit ⟨ts ++ us, stop⟩) :=
    s.lockstep.reads_programWithin (Akin.wrap _ _ _) limit (.before List.suffix_rfl)
  have hnamed : root.isNamed = true := by
    obtain ⟨-, -, -, -, -, -, -, rfl⟩ := program_spells (program_of_within h)
    rfl
  rw [h] at hends
  generalize programWithin limit ⟨ts ++ us, stop⟩ = result at hends
  cases hends with
  | @ok _ root' hroot => exact ⟨root', rfl, ((akin_one.1 hroot).2 hnamed).2.symm⟩

end Parser

/-- A semicolon stands where its token says. -/
theorem Token.Stands.semicolon {whole : List Char} {t : Token} (h : t.Stands whole)
    (hk : t.kind = .semicolon) :
    ∃ before rest, whole = before ++ ';' :: rest ∧ t.span.start.offset = width before := by
  obtain ⟨before, rest, hwhole, hstart, -⟩ := h.covers
  have hlexeme : t.lexeme = ";" := h.spelled (by rw [hk]; rfl)
  rw [hlexeme] at hwhole
  refine ⟨before, rest, ?_, Span.Covers.offset_start hstart⟩
  rw [← hwhole]
  simp

/-- A run of the lexer that finds a semicolon behind so many tokens and so many
bytes. -/
theorem semicolon_of_run (source : String) (k place : Nat) (p : List Token → List Token → Bool)
    (hrun : (tokenize none source).toOption.any (fun list =>
      (list.tokens.drop k).head?.any (fun t =>
        t.kind = .semicolon && t.span.start.offset = place) &&
      p (list.tokens.take k) (list.tokens.drop k).tail) = true) :
    ∃ list ts us semicolon, tokenize none source = .ok list ∧
      list.tokens = ts ++ semicolon :: us ∧ semicolon.kind = .semicolon ∧
      semicolon.span.start.offset = place ∧ p ts us = true := by
  rcases hlist : tokenize none source with e | list
  · rw [hlist] at hrun
    cases hrun
  rw [hlist] at hrun
  have hsplit := (List.take_append_drop k list.tokens).symm
  simp only [Except.toOption, Option.any_some, Bool.and_eq_true] at hrun
  generalize list.tokens.take k = ts, list.tokens.drop k = found at hrun hsplit
  obtain _ | ⟨semicolon, us⟩ := found
  · cases hrun.1
  · obtain ⟨hfound, hp⟩ := hrun
    simp only [List.head?_cons, Option.any_some, Bool.and_eq_true, decide_eq_true_eq] at hfound
    exact ⟨list, ts, us, semicolon, rfl, hsplit, hfound.1, hfound.2, hp⟩

/-- A semicolon that may be left out can be replaced by a space: the program
parses again, and its tree has the same named structure. Nothing may follow that
goes on with an expression. -/
theorem semicolon_may_be_left_out (bounds : Bounds) (file : Option String) (source : String)
    (tree : Tree) (list : TokenList) (ts us : List Token) (semicolon : Token)
    (htree : Tree.ofSource bounds file source = .ok tree) (hlist : tokenize file source = .ok list)
    (htokens : list.tokens = ts ++ semicolon :: us) (hk : semicolon.kind = .semicolon)
    (hrule : MayBeLeftOut ts us) (hnext : Heads (fun k => k ≠ .lparen ∧ k ≠ .minus) us) :
    ∃ before rest tree', source.toList = before ++ ';' :: rest ∧
      semicolon.span.start.offset = (encode before).length ∧
      Tree.ofSource bounds file (String.ofList (before ++ ' ' :: rest)) = .ok tree' ∧
      tree'.root.sexp = tree.root.sexp := by
  have hstands := (tokenize_places hlist).2.1 semicolon (by rw [htokens]; simp)
  obtain ⟨before, rest, hsource, hplace⟩ := hstands.semicolon hk
  have hspaced := tokenize_spaced hlist htokens hsource hplace
  unfold Tree.ofSource at htree
  rw [hlist] at htree
  obtain ⟨tokens, stop⟩ := list
  obtain rfl : tokens = ts ++ semicolon :: us := htokens
  dsimp only at htree
  cases hroot : programWithin bounds.brackets ⟨ts ++ semicolon :: us, stop⟩ with
  | error e =>
    rw [hroot] at htree
    cases htree
  | ok root =>
    rw [hroot] at htree
    cases htree
    obtain ⟨root', hroot', hsexp⟩ := programWithin_without hroot hk hrule hnext
    refine ⟨before, rest, ⟨root', encode (String.ofList (before ++ ' ' :: rest)).toList⟩,
      hsource, ?_, ?_, hsexp⟩
    · rw [length_encode, hplace]
    · unfold Tree.ofSource
      rw [hspaced]
      dsimp only
      rw [hroot']

/-- Behind the body of a lambda a declaration needs no semicolon, if a name
follows. -/
theorem semicolon_may_be_left_out_lambda :
    let source := "let f = (x) => \x7b return x; \x7d; f(1);"
    let spaced := "let f = (x) => \x7b return x; \x7d  f(1);"
    ∃ tree tree', Tree.ofSource {} none source = .ok tree ∧
      Tree.ofSource {} none spaced = .ok tree' ∧ tree'.root.sexp = tree.root.sexp := by
  intro source spaced
  have hsource : source.toList =
      "let f = (x) => \x7b return x; \x7d".toList ++ ';' :: " f(1);".toList := by
    decide +kernel
  obtain ⟨list, ts, us, semicolon, hlist, htokens, hk, hplace, hkinds⟩ :=
    semicolon_of_run source 12 28 (fun ts us => ts.getLast?.any (·.kind = .rbrace) &&
      us.head?.all fun u => u.kind ≠ .lparen && u.kind ≠ .minus) (by decide +kernel)
  rw [Bool.and_eq_true] at hkinds
  rcases htree : Tree.ofSource {} none source with e | tree
  · have hparses : (Tree.ofSource {} none source).toOption.isSome = true := by decide +kernel
    rw [htree] at hparses
    cases hparses
  obtain ⟨before, rest, tree', hwhole, hoffset, htree', hsexp⟩ :=
    semicolon_may_be_left_out {} none source tree list ts us semicolon htree hlist htokens hk
      (.inr hkinds.1) (fun u hu => by simpa [Option.mem_def.1 hu] using hkinds.2)
  have hbefore := eq_of_width (hsource.symm.trans hwhole) (by
    rw [← length_encode before, ← hoffset, hplace]
    decide +kernel)
  rw [hsource, ← hbefore] at hwhole
  obtain ⟨-, rfl⟩ := List.cons.inj (List.append_cancel_left hwhole)
  have hspaced : String.ofList (before ++ ' ' :: " f(1);".toList) = spaced := by
    rw [← hbefore]
    decide +kernel
  rw [hspaced] at htree'
  exact ⟨tree, tree', rfl, htree', hsexp⟩

/-- Before a parenthesis the semicolon behind an if expression is no ornament:
without it the arms are called. -/
theorem semicolon_keeps_statements_apart :
    let source := "if (1) \x7b 2; \x7d; (3);"
    let spaced := "if (1) \x7b 2; \x7d  (3);"
    ∃ tree tree' list before rest ts us semicolon, Tree.ofSource {} none source = .ok tree ∧
      tokenize none source = .ok list ∧ list.tokens = ts ++ semicolon :: us ∧
      semicolon.kind = .semicolon ∧ MayBeLeftOut ts us ∧
      source.toList = before ++ ';' :: rest ∧
      semicolon.span.start.offset = (encode before).length ∧
      spaced.toList = before ++ ' ' :: rest ∧
      Tree.ofSource {} none spaced = .ok tree' ∧ tree'.root.sexp ≠ tree.root.sexp := by
  intro source spaced
  obtain ⟨list, ts, us, semicolon, hlist, htokens, hk, hplace, hbrace⟩ :=
    semicolon_of_run source 8 13 (fun ts _ => ts.getLast?.any (·.kind = .rbrace))
      (by decide +kernel)
  have hruns : (Tree.ofSource {} none source).toOption.any (fun tree =>
      (Tree.ofSource {} none spaced).toOption.any fun tree' =>
        tree'.root.sexp ≠ tree.root.sexp) = true := by
    decide +kernel
  rcases htree : Tree.ofSource {} none source with e | tree
  · rw [htree] at hruns
    cases hruns
  rcases htree' : Tree.ofSource {} none spaced with e | tree'
  · rw [htree, htree'] at hruns
    cases hruns
  rw [htree, htree'] at hruns
  refine ⟨tree, tree', list, "if (1) \x7b 2; \x7d".toList, " (3);".toList, ts, us, semicolon, rfl,
    hlist, htokens, hk, .inr hbrace, ?_, ?_, ?_, rfl, ?_⟩
  · decide +kernel
  · rw [hplace]
    decide +kernel
  · decide +kernel
  · simpa [Except.toOption] using hruns

end SamScript
