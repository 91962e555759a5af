/-
Words reach as far as they can. What words of each kind are spelled with is said
without the scanner (`TokenKind.Class`): numbers by their parts, names by their
characters, string literals as what stands between two quotes, all else by its one
spelling. The first character of a text decides which of these its word can be, and
within one of them no longer front of the text would do: digits are taken while there
are any, of a mark the longer one is tried first, and a string literal ends at the
first quote that closes it (`Inside.unique`).
-/
import SamScript.Proofs.Token.Coordinates
import SamScript.Proofs.Token.Spelled

namespace SamScript

open Scan Decimal

-- ================================================================== classes

/-- A number: digits, a fraction or none, and an exponent or none. -/
def IsNumber (text : List Char) : Prop :=
  ∃ k : Number, text = k.text

/-- A letter or an underscore, and then letters, numeric characters and underscores. -/
def IsName : List Char → Prop
  | [] => False
  | c :: cs => (Text.isLetter c = true ∨ c = '_') ∧
      ∀ d ∈ cs, Text.isAlphanumeric d = true ∨ d = '_'

/-- What can stand between two quotes: characters other than the quote, a backslash
and a line feed, and backslashes that escape the character behind them. Digits and
braces that belong to an escape sequence as well are characters of the first sort. -/
inductive Inside (quote : Char) : List Char → Prop
  | nil : Inside quote []
  | plain {c : Char} {text : List Char} : c ≠ quote → c ≠ '\\' → c ≠ '\n' → Inside quote text →
      Inside quote (c :: text)
  | escape {c : Char} {text : List Char} : c ≠ '\n' → Inside quote text →
      Inside quote ('\\' :: c :: text)

def IsLiteral (text : List Char) : Prop :=
  ∃ quote body, (quote = '"' ∨ quote = '\'') ∧ Inside quote body ∧
    text = quote :: body ++ [quote]

/-- The words that are no names. -/
def reserved : List String :=
  ["let", "interface", "load", "return", "if", "else"]

/-- The operators and the punctuation. -/
def marks : List String :=
  ["=>", "==", "!=", "<=", ">=", "&&", "||", "+", "-", "*", "/", "%", "<", ">", "=", ";", ",", ".",
    "(", ")", "[", "]", "\x7b", "\x7d"]

/-- The texts that words of a kind can be. -/
def TokenKind.Class (kind : TokenKind) (text : List Char) : Prop :=
  match kind with
  | .number => IsNumber text
  | .string => IsLiteral text
  | .identifier => IsName text ∧ String.ofList text ∉ reserved
  | kind => kind.spelling? = some (String.ofList text)

theorem isName_cons {c : Char} {cs : List Char} :
    IsName (c :: cs) ↔ isWordStart c = true ∧ ∀ d ∈ cs, isWordChar d = true := by
  simp [IsName, isWordStart, isWordChar]

theorem TokenKind.class_of_spelling {kind : TokenKind} {text : List Char}
    (h : kind.spelling? = some (String.ofList text)) : kind.Class text := by
  cases kind <;> first
    | exact h
    | cases h

/-- Whatever its kind, a word is a literal, a number, a name or a mark. -/
theorem TokenKind.Class.sort {kind : TokenKind} {text : List Char} (h : kind.Class text) :
    IsLiteral text ∨ IsNumber text ∨ IsName text ∨ String.ofList text ∈ marks := by
  cases kind with
  | number => exact .inr (.inl h)
  | string => exact .inl h
  | identifier => exact .inr (.inr (.inl h.1))
  | let_ | interface_ | load | return_ | if_ | else_ =>
    refine .inr (.inr (.inl ?_))
    rw [← String.toList_ofList (l := text), ← Option.some.inj h]
    exact isName_cons.2 ⟨by decide, List.all_eq_true.1 (by decide)⟩
  | _ =>
    refine .inr (.inr (.inr ?_))
    rw [← Option.some.inj h]
    decide

/-- A name that no reserved word is like is none. -/
theorem not_mem_reserved {text : List Char} (h : TokenKind.keyword? text = none) :
    String.ofList text ∉ reserved := by
  intro hmem
  simp only [reserved, List.mem_cons, List.not_mem_nil, or_false] at hmem
  rcases hmem with he | he | he | he | he | he
  all_goals
    obtain rfl := (String.toList_ofList (l := text)).symm.trans (congrArg String.toList he)
    cases h

-- ================================================================= literals

namespace Inside

variable {quote : Char} {text rest : List Char}

theorem append (hplain : ∀ c ∈ text, isPlain quote c = true) (h : Inside quote rest) :
    Inside quote (text ++ rest) := by
  induction text with
  | nil => exact h
  | cons c text ih =>
    obtain ⟨hc, htext⟩ := List.forall_mem_cons.1 hplain
    simp only [isPlain, Bool.and_eq_true, decide_eq_true_eq] at hc
    exact .plain hc.1.1 hc.2 hc.1.2 (ih htext)

/-- What stands between two quotes ends at the first quote that closes it. -/
theorem unique (hquote : quote ≠ '\\') {a b r s : List Char} (ha : Inside quote a)
    (hb : Inside quote b) (h : a ++ quote :: r = b ++ quote :: s) : a = b := by
  induction ha generalizing b with
  | nil =>
    cases hb with
    | nil => rfl
    | plain hc => exact absurd (List.cons.inj h).1.symm hc
    | escape => exact absurd (List.cons.inj h).1 hquote
  | plain hc hescape _ _ ih =>
    cases hb with
    | nil => exact absurd (List.cons.inj h).1 hc
    | plain _ _ _ hb =>
      obtain ⟨rfl, hmore⟩ := List.cons.inj h
      rw [ih hb hmore]
    | escape => exact absurd (List.cons.inj h).1 hescape
  | escape _ _ ih =>
    cases hb with
    | nil => exact absurd (List.cons.inj h).1.symm hquote
    | plain _ hescape => exact absurd (List.cons.inj h).1.symm hescape
    | escape _ hb =>
      obtain ⟨rfl, hmore⟩ := List.cons.inj (List.cons.inj h).2
      rw [ih hb hmore]

end Inside

/-- Hexadecimal digits stand for themselves between quotes. -/
theorem isPlain_of_isHexDigit {quote c : Char} (hquote : quote = '"' ∨ quote = '\'')
    (hc : isHexDigit c = true) : isPlain quote c = true := by
  have hne : c ≠ quote := by
    rcases hquote with rfl | rfl
    · exact ne_of_class hc (by decide)
    · exact ne_of_class hc (by decide)
  have hline : c ≠ '\n' := ne_of_class hc (by decide)
  have hescape : c ≠ '\\' := ne_of_class hc (by decide)
  simp [isPlain, hne, hline, hescape]

/-- An escape sequence is a backslash, a character, and characters that stand for
themselves. -/
theorem Scan.IsEscape.exists_plain {tail : List Char} {quote next : Char} (h : IsEscape tail next)
    (hquote : quote = '"' ∨ quote = '\'') :
    ∃ c more, tail = c :: more ∧ c ≠ '\n' ∧ ∀ d ∈ more, isPlain quote d = true := by
  have hbrace : isPlain quote '\x7b' = true ∧ isPlain quote '\x7d' = true := by
    rcases hquote with rfl | rfl <;> decide
  have hhex {digits : List Char} (hall : ∀ d ∈ digits, isHexDigit d = true) :
      ∀ d ∈ digits, isPlain quote d = true :=
    fun d hd => isPlain_of_isHexDigit hquote (hall d hd)
  cases h with
  | one hline => exact ⟨_, [], rfl, hline, fun _ hd => nomatch hd⟩
  | hex hall => exact ⟨_, _, rfl, by decide, hhex hall⟩
  | unicode hall => exact ⟨_, _, rfl, by decide, hhex hall⟩
  | braced hall =>
    refine ⟨_, _, rfl, by decide, List.forall_mem_cons.2 ⟨hbrace.1, ?_⟩⟩
    exact List.forall_mem_append.2 ⟨hhex hall, List.forall_mem_singleton.2 hbrace.2⟩
  | unclosed hall =>
    exact ⟨_, _, rfl, by decide, List.forall_mem_cons.2 ⟨hbrace.1, hhex hall⟩⟩

/-- The pieces of a literal stand between its quotes. -/
theorem Scan.Pieces.inside {quote : Char} {pieces : List Piece}
    (hquote : quote = '"' ∨ quote = '\'') (h : Pieces quote pieces) :
    Inside quote (piecesText pieces) := by
  induction h with
  | nil => exact .nil
  | fragment _ hplain _ _ ih => exact ih.append hplain
  | escape htail _ ih =>
    obtain ⟨c, more, rfl, hline, hplain⟩ := htail.exists_plain hquote
    exact .escape hline (ih.append hplain)

-- ================================================================== numbers

namespace Number

variable {left rest text : List Char}

/-- Behind a point or digits, the exponent that a number has is not missed. -/
theorem takeExponent_leaves (n : Number)
    (h : takeExponent ((n.exponentText ++ left).dropWhile isDigit) = .ok (text, rest)) :
    rest.length ≤ left.length := by
  unfold exponentText at h
  cases he : n.exponent with
  | none =>
    rw [he] at h
    have hlength := congrArg List.length (takeExponent_append h)
    have hle := length_dropWhile_le isDigit left
    rw [List.length_append] at hlength
    change _ = (left.dropWhile isDigit).length at hlength
    omega
  | some e =>
    have hletter : ¬ isDigit e.letter = true := by
      rcases e.letter_eq with he | he <;> rw [he] <;> decide
    have hnone : ¬ ((e.digits.text ++ left).takeWhile isDigit).isEmpty = true := by
      rw [List.takeWhile_append_of_pos e.digits.digit, List.isEmpty_iff, List.append_eq_nil_iff]
      exact fun hnil => e.digits.ne_nil hnil.1
    rw [he] at h
    change takeExponent ((e.letter :: (e.sign.toList ++ e.digits.text ++ left)).dropWhile _) = _ at h
    rw [List.dropWhile_cons_of_neg hletter, List.append_assoc, takeExponent, if_pos e.letter_eq,
      e.takeUpTo_sign] at h
    dsimp only at h
    rw [if_neg hnone, List.dropWhile_append_of_pos e.digits.digit] at h
    cases h
    exact length_dropWhile_le isDigit left

/-- Behind digits, neither the fraction nor the exponent that a number has is missed. -/
theorem takeFraction_leaves (n : Number)
    (h : takeExponent (takeFraction
      ((n.fractionText ++ (n.exponentText ++ left)).dropWhile isDigit)).2 = .ok (text, rest)) :
    rest.length ≤ left.length := by
  unfold fractionText at h
  cases hf : n.fraction with
  | some ds =>
    have hnone (more : List Char) : ¬ ((ds.text ++ more).takeWhile isDigit).isEmpty = true := by
      rw [List.takeWhile_append_of_pos ds.digit, List.isEmpty_iff, List.append_eq_nil_iff]
      exact fun hnil => ds.ne_nil hnil.1
    rw [hf] at h
    change takeExponent (takeFraction
      (('.' :: (ds.text ++ (n.exponentText ++ left))).dropWhile _)).2 = _ at h
    rw [List.dropWhile_cons_of_neg (by decide), takeFraction, if_neg (hnone _),
      List.dropWhile_append_of_pos ds.digit] at h
    exact n.takeExponent_leaves h
  | none =>
    rw [hf] at h
    change takeExponent (takeFraction ((n.exponentText ++ left).dropWhile isDigit)).2 = _ at h
    cases he : n.exponent with
    | none =>
      have hfront := congrArg List.length (takeFraction_append (left.dropWhile isDigit))
      have hle := length_dropWhile_le isDigit left
      rw [exponentText, he] at h
      have hlength := congrArg List.length (takeExponent_append h)
      rw [List.length_append] at hfront hlength
      change _ = (takeFraction (left.dropWhile isDigit)).2.length at hlength
      omega
    | some e =>
      -- the letter of the exponent is no point, so there is no fraction
      have hletter : isDigit e.letter = false ∧ e.letter ≠ '.' := by
        rcases e.letter_eq with he | he <;> rw [he] <;> decide
      have hfront : (takeFraction ((n.exponentText ++ left).dropWhile isDigit)).2 =
          (n.exponentText ++ left).dropWhile isDigit := by
        rw [exponentText, he]
        change (takeFraction ((e.letter :: (e.sign.toList ++ e.digits.text ++ left)).dropWhile _)).2 =
          (e.letter :: (e.sign.toList ++ e.digits.text ++ left)).dropWhile _
        rw [List.dropWhile_cons_of_neg (by rw [hletter.1]; exact Bool.false_ne_true), takeFraction]
        exact fun _ hpoint => hletter.2 (List.cons.inj hpoint).1
      rw [hfront] at h
      exact n.takeExponent_leaves h

end Number

namespace Scan

variable {c : Char} {cs text left rest : List Char} {w : Word}

/-- What a number leaves is what its exponent left, and no name begins there. -/
theorem takeNumber_ok (h : takeNumber cs = .ok (text, rest)) :
    (∃ exponent, takeExponent (takeFraction (cs.dropWhile isDigit)).2 = .ok (exponent, rest)) ∧
      Stops isWordStart rest := by
  unfold takeNumber at h
  generalize takeFraction (cs.dropWhile isDigit) = taken at h
  obtain ⟨fraction, tail⟩ := taken
  dsimp only at h
  split at h
  · cases h
  · rename_i exponent r he
    split at h
    · split at h
      · cases h
      · rename_i hstart
        cases h
        exact ⟨⟨exponent, he⟩, .cons (Bool.not_eq_true _ ▸ hstart)⟩
    · cases h
      exact ⟨⟨exponent, he⟩, fun _ hc => nomatch hc⟩

/-- A number that a text begins with is no longer than the one split off. -/
theorem takeNumber_longest (n : Number) (h : takeNumber (n.text ++ left) = .ok (text, rest)) :
    rest.length ≤ left.length := by
  obtain ⟨⟨exponent, he⟩, -⟩ := takeNumber_ok h
  have htext : n.text ++ left = n.whole.text ++ (n.fractionText ++ (n.exponentText ++ left)) := by
    simp [Number.text]
  rw [htext, List.dropWhile_append_of_pos n.whole.digit] at he
  exact n.takeFraction_leaves he

-- ==================================================================== words

/-- A word that leaves no more than another front of the text is no shorter. -/
theorem length_le_of_rest (h : takeWord c cs = .ok w) (htext : text ++ left = c :: cs)
    (hle : w.rest.length ≤ left.length) : text.length ≤ w.lexeme.length := by
  have hlength := congrArg List.length ((takeWord_append h).1.trans htext.symm)
  rw [List.length_append, List.length_append] at hlength
  omega

theorem not_quote_of_isDigit (h : isDigit c = true) : ¬ (c = '"' ∨ c = '\'') :=
  not_or.2 ⟨ne_of_class h (by decide), ne_of_class h (by decide)⟩

theorem not_quote_of_isWordStart (h : isWordStart c = true) : ¬ (c = '"' ∨ c = '\'') :=
  not_or.2 ⟨ne_of_class h (by decide), ne_of_class h (by decide)⟩

theorem takeWord_longest_literal (h : takeWord c cs = .ok w) (htext : text ++ left = c :: cs)
    (hliteral : IsLiteral text) : text.length ≤ w.lexeme.length := by
  obtain ⟨quote, body, hquote, hbody, rfl⟩ := hliteral
  obtain ⟨rfl, hcs⟩ : quote = c ∧ body ++ quote :: left = cs := by simpa using htext
  unfold takeWord at h
  rw [if_pos hquote] at h
  split at h
  · cases h
  · rename_i pieces rest hpieces
    cases h
    obtain ⟨hwhole, hvalid⟩ := (takePieces_eq_ok_iff hquote).1 hpieces
    have hescape : quote ≠ '\\' := by
      rcases hquote with rfl | rfl <;> decide
    have hsame := hbody.unique hescape (hvalid.inside hquote) (hcs.trans hwhole)
    exact Nat.le_of_eq (by rw [hsame])

theorem takeWord_longest_number (h : takeWord c cs = .ok w) (htext : text ++ left = c :: cs)
    (hnumber : IsNumber text) : text.length ≤ w.lexeme.length := by
  obtain ⟨n, rfl⟩ := hnumber
  have hdigit : isDigit c = true := by
    obtain ⟨d, ds, hds⟩ := List.exists_cons_of_ne_nil n.whole.ne_nil
    rw [Number.text, hds] at htext
    rw [← (List.cons.inj htext).1]
    exact n.whole.digit d (hds ▸ List.mem_cons_self)
  have hword := h
  unfold takeWord at hword
  rw [if_neg (not_quote_of_isDigit hdigit), if_pos hdigit] at hword
  split at hword
  · cases hword
  · rename_i number rest htake
    cases hword
    rw [← htext] at htake
    exact length_le_of_rest h htext (takeNumber_longest n htake)

theorem takeWord_longest_name (h : takeWord c cs = .ok w) (htext : text ++ left = c :: cs)
    (hname : IsName text) : text.length ≤ w.lexeme.length := by
  cases text with
  | nil => exact hname.elim
  | cons d ds =>
    obtain ⟨rfl, hcs⟩ := List.cons.inj htext
    change ds ++ left = cs at hcs
    obtain ⟨hstart, hmore⟩ := isName_cons.1 hname
    have hdigit : ¬ isDigit d = true := fun hd => by
      rw [isWordStart_of_isDigit hd] at hstart
      cases hstart
    have hword := h
    unfold takeWord at hword
    rw [if_neg (not_quote_of_isWordStart hstart), if_neg hdigit, if_pos hstart] at hword
    cases hword
    refine length_le_of_rest h htext ?_
    show (cs.dropWhile isWordChar).length ≤ left.length
    rw [← hcs, List.dropWhile_append_of_pos hmore]
    exact length_dropWhile_le isWordChar left

/-- A mark is of one character, or it is one of those that are tried first. -/
theorem mark_of_two (h : String.ofList text ∈ marks) : text.length = 1 ∨
    ∃ kind, ∀ left, symbol? (text ++ left) = some (kind, text, left) := by
  simp only [marks, List.mem_cons, List.not_mem_nil, or_false] at h
  have hchars {s : String} (he : String.ofList text = s) : text = s.toList := by
    rw [← he, String.toList_ofList]
  rcases h with h | h | h | h | h | h | h | h
  · exact .inr ⟨.doubleArrow, by rw [hchars h]; exact fun _ => rfl⟩
  · exact .inr ⟨.eq, by rw [hchars h]; exact fun _ => rfl⟩
  · exact .inr ⟨.ne, by rw [hchars h]; exact fun _ => rfl⟩
  · exact .inr ⟨.le, by rw [hchars h]; exact fun _ => rfl⟩
  · exact .inr ⟨.ge, by rw [hchars h]; exact fun _ => rfl⟩
  · exact .inr ⟨.and, by rw [hchars h]; exact fun _ => rfl⟩
  · exact .inr ⟨.or, by rw [hchars h]; exact fun _ => rfl⟩
  · refine .inl ?_
    have hone : ∀ s ∈ marks.drop 7, s.toList.length = 1 := by decide
    rw [← String.toList_ofList (l := text)]
    exact hone _ (by simpa [marks] using h)

theorem takeWord_of_symbol? {kind : TokenKind} (h : symbol? (c :: cs) = some (kind, text, rest)) :
    takeWord c cs = .ok ⟨kind, text, [], rest⟩ := by
  have hfirst : ¬ (c = '"' ∨ c = '\'') ∧ isDigit c = false ∧ isWordStart c = false := by
    generalize hcs : c :: cs = whole at h
    unfold symbol? at h
    split at h <;> cases h <;> obtain ⟨rfl, -⟩ := List.cons.inj hcs <;> decide
  rw [takeWord, if_neg hfirst.1, if_neg (by simp [hfirst.2.1]), if_neg (by simp [hfirst.2.2]), h]

theorem takeWord_longest_mark (h : takeWord c cs = .ok w) (htext : text ++ left = c :: cs)
    (hmark : String.ofList text ∈ marks) : text.length ≤ w.lexeme.length := by
  rcases mark_of_two hmark with hone | ⟨kind, hsymbol⟩
  · rw [hone]
    exact List.length_pos_iff.2 (takeWord_append h).2
  · have hword := takeWord_of_symbol? (htext ▸ hsymbol left)
    cases h.symm.trans hword
    exact Nat.le_refl _

/-- No front of a text that is a word of any kind is longer than the word split off. -/
theorem takeWord_longest {kind : TokenKind} (h : takeWord c cs = .ok w)
    (htext : text ++ left = c :: cs) (hclass : kind.Class text) :
    text.length ≤ w.lexeme.length := by
  rcases hclass.sort with hliteral | hnumber | hname | hmark
  · exact takeWord_longest_literal h htext hliteral
  · exact takeWord_longest_number h htext hnumber
  · exact takeWord_longest_name h htext hname
  · exact takeWord_longest_mark h htext hmark

end Scan

/-- What a lexeme says is a word of its kind. -/
theorem Lexeme.kind_class (ℓ : Lexeme) : ℓ.kind.Class ℓ.text := by
  cases ℓ with
  | mark kind h =>
    obtain ⟨spelling, hspelling⟩ := Option.isSome_iff_exists.1 h
    refine TokenKind.class_of_spelling ?_
    rw [Lexeme.text, hspelling, Option.getD_some, String.ofList_toList]
    exact hspelling
  | sign => exact (rfl : TokenKind.minus.spelling? = some (String.ofList ['-']))
  | name x => exact ⟨isName_cons.2 ⟨x.start, x.word⟩, not_mem_reserved x.free⟩
  | number k => exact ⟨k, rfl⟩
  | string s => exact ⟨s.quote, piecesText s.pieces, s.quote_eq, s.valid.inside s.quote_eq, rfl⟩

/-- A word that is split off is one of its kind. -/
theorem Scan.takeWord_class {c : Char} {cs : List Char} {w : Word} (h : takeWord c cs = .ok w) :
    w.kind.Class w.lexeme := by
  obtain ⟨ℓ, -, hkind, htext, -⟩ := takeWord_lexeme h
  rw [← hkind, ← htext]
  exact ℓ.kind_class

-- ================================================================= programs

/-- Whether a token is the longest word between two texts: it begins behind the first,
its lexeme is a word of its kind, no longer front of what is left there is a word of any
kind, and neither a letter nor an underscore comes right behind it if it is a number. -/
structure Token.Longest (before rest : List Char) (t : Token) : Prop where
  start : t.span.start.Behind before
  word : t.kind.Class t.lexeme.toList
  longest : ∀ longer, longer <+: t.lexeme.toList ++ rest →
    t.lexeme.toList.length < longer.length → ∀ kind : TokenKind, ¬ kind.Class longer
  apart : t.kind = .number → ∀ c ∈ rest.head?, Text.isLetter c = false ∧ c ≠ '_'

/-- Every token of a program is the longest word at its place. -/
theorem tokens_are_longest_matches (file : Option String) (source : String) (list : TokenList)
    (h : tokenize file source = .ok list) :
    ∀ t ∈ list.tokens, ∃ before rest,
      source.toList = before ++ (t.lexeme.toList ++ rest) ∧ t.Longest before rest := by
  intro t ht
  rw [(tokenize_eq_ok h).1] at ht
  obtain ⟨before, c, cs, w, hwhole, hw, rfl⟩ := lexFrom_words file [] source.toList t ht
  have hword := (takeWord_append hw).1
  have hlexeme : (Token.ofWord file (({} : Position).after before) w).lexeme.toList = w.lexeme :=
    String.toList_ofList
  rw [List.nil_append, ← hword] at hwhole
  refine ⟨before, w.rest, by rw [hlexeme, hwhole], Position.behind_after before, ?_, ?_, ?_⟩
  · rw [hlexeme]
    exact takeWord_class hw
  · rw [hlexeme]
    rintro longer ⟨left, hleft⟩ hlength kind hclass
    exact Nat.not_le.2 hlength (takeWord_longest hw (hleft.trans hword) hclass)
  · intro hnumber d hd
    obtain ⟨-, htake⟩ := takeNumber_of_takeWord hw hnumber
    have hstop := (takeNumber_ok htake).2 d hd
    rwa [isWordStart, Bool.or_eq_false_iff, decide_eq_false_iff_not] at hstop

/-- A name that begins with a reserved word, a point that goes on with no number, marks of
two characters next to marks of one, and a quote that is escaped. -/
theorem tokens_are_longest_matches_close :
    let source := "letter=1.5e3.x<=\"a\\\"b\"==>"
    ∃ list, tokenize none source = .ok list ∧
      list.tokens.map (·.lexeme) = ["letter", "=", "1.5e3", ".", "x", "<=", "\"a\\\"b\"", "==", ">"] ∧
      ∀ t ∈ list.tokens, ∃ before rest,
        source.toList = before ++ (t.lexeme.toList ++ rest) ∧ t.Longest before rest := by
  intro source
  have hrun : (tokenize none source).toOption.any (fun list => list.tokens.map (·.lexeme) =
      ["letter", "=", "1.5e3", ".", "x", "<=", "\"a\\\"b\"", "==", ">"]) = true := by
    decide +kernel
  obtain ⟨list, htokens, hlexemes⟩ := exists_ok_of_any hrun
  exact ⟨list, htokens, of_decide_eq_true hlexemes,
    tokens_are_longest_matches none source list htokens⟩

end SamScript
