/-
The line that a report quotes. A place counts its line by line feeds, while the
lines to quote are split at every break that a display knows, three times over:
for the words, for the grammar and for a run. All three quote the line of that
number (`Diagnostic.Cites`). It is the line of the place where nothing but line
feeds breaks the text before it, and then the underline begins under the character
that the span begins with. Another break further up in the text, in a comment or a
string literal, makes it a line that has nothing to do with the place.
-/
import SamScript.Proofs.Eval.Diagnostics
import SamScript.Proofs.Text.Lines

namespace SamScript

-- ================================================================ reports

/-- The reports that a text gives rise to: about its words, about its grammar, and
about a run of it. -/
inductive Reports (source : String) : Diagnostic → Prop
  | words {file : Option String} {e : LexError} : tokenize file source = .error e →
      Reports source (e.diagnostic (Lines.split source.toList))
  | grammar {bounds : Bounds} {file : Option String} {e : SourceError} :
      Tree.ofSource bounds file source = .error e →
      Reports source (e.diagnostic (Lines.split source.toList))
  | run {r : Surroundings} {e : RunError} {d : Diagnostic} : runSource r source = .error e →
      e.diagnostic? source = some d → Reports source d

/-- Whether a report has a place of a text, and quotes the line of its number if it
quotes any. -/
def Diagnostic.Cites (source : List Char) (d : Diagnostic) : Prop :=
  ∃ s, d.span = some s ∧ s.start.Within source ∧ ∀ line, d.sourceLine = some line →
    Lines.line? (Lines.split source) s.start.line = some line

theorem Span.Covers.start_within {whole part : List Char} {s : Span} (h : s.Covers whole part) :
    s.start.Within whole := by
  obtain ⟨before, rest, hwhole, hstart, -⟩ := h
  exact ⟨before, part ++ rest, by rw [← List.append_assoc, hwhole], hstart⟩

theorem LexError.cites {file : Option String} {source : String} {e : LexError}
    (h : tokenize file source = .error e) :
    (e.diagnostic (Lines.split source.toList)).Cites source.toList := by
  obtain ⟨part, hpart⟩ := tokenize_faults h
  exact ⟨e.span, rfl, hpart.start_within, fun line hline => hline⟩

theorem ParseError.sourceLine_diagnostic {e : ParseError} {lines : List String} {line : String}
    (h : (e.diagnostic lines).sourceLine = some line) :
    Lines.line? lines e.span.start.line = some line := by
  unfold diagnostic at h
  dsimp only at h
  split at h
  · cases h
  · exact h

theorem SourceError.cites {bounds : Bounds} {file : Option String} {source : String}
    {e : SourceError} (h : Tree.ofSource bounds file source = .error e) :
    (e.diagnostic (Lines.split source.toList)).Cites source.toList := by
  obtain ⟨s, part, hspan, hpart⟩ := Tree.ofSource_faults h (Lines.split source.toList)
  refine ⟨s, hspan, hpart.start_within, fun line hline => ?_⟩
  cases e with
  | lex e =>
    cases hspan
    exact hline
  | parse e =>
    cases hspan
    exact ParseError.sourceLine_diagnostic hline

/-- A node of a parsed tree is reported with the line of its number. -/
theorem Tree.report_cites {r : Surroundings} {source : String} {tree : Tree}
    (htree : Tree.ofSource r.bounds r.file source = .ok tree) {n : Node}
    (hn : n ∈ tree.root.preorder) (cause : EvalFault) :
    (Failure.report cause (some ((r.env tree.root tree.source).place n))).Cites
      source.toList := by
  have hsource := (Tree.ofSource_spells htree).1
  obtain ⟨s, hstart, -, hextent, hspan⟩ :=
    (r.env tree.root tree.source).span_place (Tree.ofSource_placed htree n hn)
  refine ⟨⟨s.start, s.stop, r.file⟩, congrArg some hspan, hstart, fun line hline => ?_⟩
  have hrow : n.extent.startPoint.row + 1 = s.start.line := by
    rw [hextent]
    exact Nat.sub_add_cancel hstart.pos.1
  change Lines.line? (Lines.split (Utf8.decodeLossy tree.source))
    (n.extent.startPoint.row + 1) = some line at hline
  rwa [hrow, hsource, Utf8.decodeLossy_encode] at hline

theorem Reports.cites {source : String} {d : Diagnostic} (h : Reports source d) :
    d.Cites source.toList := by
  cases h with
  | words h => exact LexError.cites h
  | grammar h => exact SourceError.cites h
  | @run r e d hrun hd =>
    rcases e with e | ⟨cause, place⟩ | abort | _
    · cases hd
      exact SourceError.cites (error_of_runSource hrun)
    · cases hd
      obtain ⟨tree, htree, hfails⟩ := evaluate_of_runSource hrun
      have hprogram : (Eval.program (r.env tree.root tree.source) {}).1
          = .error (.fault cause place) := hfails
      obtain ⟨n, hn, rfl, -⟩ := Eval.program_blames_node (r.ownBodies _ _)
        (Tree.ofSource_wellFormed htree).root.2 hprogram
      exact Tree.report_cites htree hn cause
    · cases hd
    · cases hd

-- ============================================================== underlines

/-- An underline begins at the column of its span. -/
theorem Diagnostic.underline_begins (span : Span) (line : String) :
    (∀ k < span.start.column - 1, (underline span line).toList[k]? = some ' ') ∧
      (underline span line).toList[span.start.column - 1]? = some '^' := by
  unfold underline
  dsimp only
  generalize hstop : (if span.start.line = span.stop.line then span.stop.column
    else line.length + 1) = stop
  rw [String.toList_ofList]
  refine ⟨fun k hk => ?_, ?_⟩
  · rw [List.getElem?_append_left (by rwa [List.length_replicate]), List.getElem?_replicate,
      if_pos hk]
  · rw [List.getElem?_append_right (Nat.le_of_eq List.length_replicate),
      List.length_replicate, Nat.sub_self, List.getElem?_replicate,
      if_pos (Nat.lt_of_lt_of_le Nat.zero_lt_one (Nat.le_max_left _ _))]

theorem Position.Behind.length_since {before : List Char} {p : Position} (h : p.Behind before) :
    (Lines.since before).length = p.column - 1 := by
  rw [Lines.since, List.length_reverse, h.column, Nat.add_sub_cancel]

-- ============================================================ the theorem

/-- Where nothing but line feeds breaks the text before the place of a report, the
line that the report quotes is the one of the place: what stands since the last
line feed, and what follows up to the next break. So the underline begins under
the character that the span begins with. -/
theorem quoted_line_is_the_line_of_the_place (source : String) (d : Diagnostic) (s : Span)
    (line : String) (hd : Reports source d) (hspan : d.span = some s)
    (hline : d.sourceLine = some line) :
    ∃ before rest, before ++ rest = source.toList ∧ s.start.Behind before ∧
      (Lines.feedsOnly before = true →
        line.toList = Lines.since before ++ rest.takeWhile (!Lines.isBreak ·) ∧
        (∀ c ∈ rest.head?, Lines.isBreak c = false →
          line.toList[s.start.column - 1]? = some c) ∧
        (∀ k < s.start.column - 1, (Diagnostic.underline s line).toList[k]? = some ' ') ∧
        (Diagnostic.underline s line).toList[s.start.column - 1]? = some '^') := by
  obtain ⟨s', hspan', ⟨before, rest, hsource, hstart⟩, hcited⟩ := hd.cites
  obtain rfl : s' = s := Option.some.inj (hspan'.symm.trans hspan)
  have hbehind : s'.start.Behind before := hstart ▸ Position.behind_after before
  refine ⟨before, rest, hsource, hbehind, fun hfeeds => ?_⟩
  have hnumber := hcited line hline
  rw [← hsource, hbehind.line] at hnumber
  have htext := Lines.toList_of_line? hfeeds hnumber
  refine ⟨htext, fun c hc hbreak => ?_, Diagnostic.underline_begins s' line⟩
  obtain ⟨more, rfl⟩ := List.head?_eq_some_iff.1 hc
  rw [htext, List.getElem?_append_right (Nat.le_of_eq hbehind.length_since), hbehind.length_since,
    Nat.sub_self, List.takeWhile_cons_of_pos (by simp [hbreak])]
  rfl

/-- A variable without a value on the second line, behind a carriage return and a
line feed; the line is quoted up to a separator in its comment. -/
theorem quoted_line_is_the_line_of_the_place_variable :
    let r : Surroundings :=
      { host := ⟨fun _ => .error .nullByte, fun _ _ => .ok ⟨[], [], 0⟩⟩ }
    let source := "let a = 1;\r\n  b; // \u2028"
    ∃ e d s, runSource r source = .error e ∧ e.diagnostic? source = some d ∧ d.span = some s ∧
      d.sourceLine = some "  b; // " ∧ s.start = ⟨2, 3, 14⟩ ∧
      "  b; // ".toList[s.start.column - 1]? = some 'b' ∧
      (Diagnostic.underline s "  b; // ").toList[s.start.column - 1]? = some '^' := by
  intro r source
  have hreport : (match runSource r source with
      | .error e => (e.diagnostic? source).any fun d => d.span.any fun s =>
          s.start = ⟨2, 3, 14⟩ && d.sourceLine = some "  b; // "
      | .ok _ => false) = true := by
    decide +kernel
  rcases hrun : runSource r source with e | s
  · rw [hrun] at hreport
    obtain ⟨d, hd, hmatch⟩ := (Option.any_eq_true _ _).1 hreport
    obtain ⟨s, hspan, hplace⟩ := (Option.any_eq_true _ _).1 hmatch
    rw [Bool.and_eq_true, decide_eq_true_eq, decide_eq_true_eq] at hplace
    obtain ⟨hstart, hline⟩ := hplace
    obtain ⟨before, rest, hsource, hbehind, hquoted⟩ :=
      quoted_line_is_the_line_of_the_place source d s _ (.run hrun hd) hspan hline
    -- the place is told by its offset
    have hsplit : source.toList = "let a = 1;\r\n  ".toList ++ "b; // \u2028".toList := by
      decide +kernel
    rw [hsplit] at hsource
    have hbefore : before = "let a = 1;\r\n  ".toList := by
      refine Utf8.eq_of_width hsource ?_
      rw [← Utf8.length_encode, ← hbehind.offset, hstart]
      decide +kernel
    rw [hbefore] at hsource hquoted
    obtain ⟨-, hchar, -, hmark⟩ := hquoted (by decide)
    refine ⟨e, d, s, rfl, hd, hspan, hline, hstart, hchar 'b' ?_ rfl, hmark⟩
    rw [List.append_cancel_left hsource]
    decide
  · rw [hrun] at hreport
    cases hreport

/-- A line separator in a comment moves the line that is quoted: the report about
the last character of the text quotes an empty line instead of the one that the
character stands on. -/
theorem quoted_line_is_another_line :
    let source := "//\u2028\n$"
    ∃ d s, Reports source d ∧ d.span = some s ∧ s.start = ⟨2, 1, 6⟩ ∧
      s.start.Behind "//\u2028\n".toList ∧ source.toList = "//\u2028\n".toList ++ ['$'] ∧
      d.sourceLine = some "" ∧ "".toList[s.start.column - 1]? ≠ some '$' := by
  intro source
  have hreport : (tokenize none source).casesOn (motive := fun _ => Bool)
      (fun e => decide (e.span.start = ⟨2, 1, 6⟩) &&
        decide ((e.diagnostic (Lines.split source.toList)).sourceLine = some ""))
      (fun _ => false) = true := by
    decide +kernel
  rcases htokens : tokenize none source with e | list
  · rw [htokens, Bool.and_eq_true, decide_eq_true_eq, decide_eq_true_eq] at hreport
    refine ⟨_, e.span, .words htokens, rfl, hreport.1, ?_, by decide +kernel, hreport.2, by simp⟩
    rw [hreport.1]
    exact ⟨by decide +kernel, by decide +kernel, by decide +kernel⟩
  · rw [htokens] at hreport
    cases hreport

end SamScript
