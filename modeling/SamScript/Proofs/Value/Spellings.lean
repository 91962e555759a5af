/-
The ways to spell a character in a string literal. It can stand for itself, behind a
backslash or not, and be escaped by a letter of the table or by its code, with as many
digits as the form of the escape asks for (`Spelling`). However the characters of a text
are spelled, each by itself, the pieces that a literal is split into stand for the text
again (`exists_pieces_spelled`): where an escape sequence ends is told by its own
characters, whatever comes behind it.
-/
import SamScript.Proofs.Decimal.Hexadecimal
import SamScript.Proofs.Value.Quoting
import Mathlib.Data.List.Forall2

namespace SamScript

open Scan Decimal

-- ================================================================ spellings

/-- The letters that escape a character, each with the character. -/
def escapes : List (Char × Char) :=
  [('n', '\n'), ('t', '\t'), ('r', '\r'), ('0', '\x00'), ('\\', '\\'), ('\'', '\''), ('"', '"'),
    ('b', '\x08'), ('f', '\x0c'), ('v', '\x0b')]

/-- The characters that a backslash gives another meaning, and the line feed, which cannot
stand behind one. -/
def meaningful : List Char :=
  ['n', 't', 'r', 'b', 'f', 'v', '0', 'x', 'u', '\n']

/-- The ways to spell a character between two quotes. -/
inductive Spelling (quote c : Char) : List Char → Prop
  | plain : c ≠ quote → c ≠ '\\' → c ≠ '\n' → Spelling quote c [c]
  | letter {e : Char} : (e, c) ∈ escapes → Spelling quote c ['\\', e]
  | hex {ds : List Char} : (∀ d ∈ ds, isHexDigit d = true) → ds.length = 2 →
      hexNumber ds = c.toNat → Spelling quote c ('\\' :: 'x' :: ds)
  | unicode {ds : List Char} : (∀ d ∈ ds, isHexDigit d = true) → ds.length = 4 →
      hexNumber ds = c.toNat → Spelling quote c ('\\' :: 'u' :: ds)
  | braced {ds : List Char} : (∀ d ∈ ds, isHexDigit d = true) → ds ≠ [] →
      hexNumber ds = c.toNat → Spelling quote c ('\\' :: 'u' :: '\x7b' :: ds ++ ['\x7d'])
  | escaped : c ∉ meaningful → Spelling quote c ['\\', c]

namespace Literal

variable {c : Char} {ds : List Char}

-- ==================================================================== codes

/-- A character is found again from its code. -/
theorem charOfCode?_toNat (c : Char) : charOfCode? (c.toNat : Int) = some c := by
  have hvalid : 0 ≤ (c.toNat : Int) ∧ (c.toNat : Int).toNat.isValidChar :=
    ⟨Int.natCast_nonneg _, c.valid⟩
  rw [charOfCode?, dif_pos hvalid, Option.some.injEq]
  exact Char.toNat_inj.1 rfl

/-- Braces around what does not begin or end with one are stripped. -/
theorem stripBraces_eq {before after : List Char} (hbefore : ∀ d ∈ before, isBrace d = true)
    (hafter : ∀ d ∈ after, isBrace d = true) (hds : ∀ d ∈ ds, isBrace d = false) (hne : ds ≠ []) :
    stripBraces (before ++ (ds ++ after)) = ds := by
  have hdrop {es more : List Char} (hes : ∀ d ∈ es, isBrace d = false) (hne : es ≠ []) :
      (es ++ more).dropWhile isBrace = es ++ more := by
    cases es with
    | nil => exact absurd rfl hne
    | cons d es => exact List.dropWhile_cons_of_neg (by simp [hes d List.mem_cons_self])
  have hafter' : ∀ d ∈ after.reverse, isBrace d = true := fun d hd =>
    hafter d (List.mem_reverse.1 hd)
  have hds' : ∀ d ∈ ds.reverse, isBrace d = false := fun d hd => hds d (List.mem_reverse.1 hd)
  rw [stripBraces, List.dropWhile_append_of_pos hbefore, hdrop hds hne, List.reverse_append,
    List.dropWhile_append_of_pos hafter']
  have hreverse := @hdrop _ [] hds' (by simpa using hne)
  rw [List.append_nil] at hreverse
  rw [hreverse, List.reverse_reverse]

theorem isBrace_hexDigit {d : Char} (h : isHexDigit d = true) : isBrace d = false := by
  have hbrace : d ≠ '\x7b' ∧ d ≠ '\x7d' := ⟨ne_of_class h (by decide), ne_of_class h (by decide)⟩
  simp [isBrace, hbrace.1, hbrace.2]

/-- A code in digits of base sixteen, in braces or not, stands for its character. -/
theorem decodeEscape_code {e : Char} (he : e = 'x' ∨ e = 'u') {body : List Char}
    (hbody : stripBraces body = ds) (hds : ∀ d ∈ ds, isHexDigit d = true) (hne : ds ≠ [])
    (hc : hexNumber ds = c.toNat) : decodeEscape (e :: body) = c := by
  have hnone : escapeChar? e = none := by
    rcases he with rfl | rfl <;> rfl
  rw [decodeEscape, hnone]
  dsimp only
  rw [if_pos he, hbody, readInteger_hexadecimal hds hne, hc]
  dsimp only
  rw [charOfCode?_toNat]
  rfl

/-- Digits without braces around them. -/
theorem stripBraces_digits (hds : ∀ d ∈ ds, isHexDigit d = true) (hne : ds ≠ []) :
    stripBraces ds = ds := by
  have hnone : ∀ d ∈ ([] : List Char), isBrace d = true := fun _ hd => nomatch hd
  have := stripBraces_eq hnone hnone (fun d hd => isBrace_hexDigit (hds d hd)) hne
  rwa [List.append_nil] at this

-- ================================================================== decoding

theorem escapeChar?_of_mem {e : Char} (h : (e, c) ∈ escapes) : escapeChar? e = some c := by
  have hall : ∀ p ∈ escapes, escapeChar? p.1 = some p.2 := by decide
  exact hall (e, c) h

/-- No letter of the table is one that goes on behind the backslash. -/
theorem escape_one {e : Char} (h : (e, c) ∈ escapes) (next : Char) : IsEscape [e] next := by
  have hall : ∀ p ∈ escapes, p.1 ≠ '\n' ∧ p.1 ≠ 'x' ∧ p.1 ≠ 'u' := by decide
  obtain ⟨hline, hx, hu⟩ := hall (e, c) h
  exact .one hline hx hu

/-- What the table has for a character that a backslash gives no other meaning. -/
theorem decodeEscape_self (h : c ∉ meaningful) : decodeEscape [c] = c := by
  have hother : escapeChar? c = none ∨ escapeChar? c = some c := by
    unfold escapeChar?
    split <;> first
      | exact .inl rfl
      | exact .inr rfl
      | exact absurd (by decide) h
  have hcode : ¬ (c = 'x' ∨ c = 'u') := by
    rintro (rfl | rfl)
    · exact h (by decide)
    · exact h (by decide)
  rcases hother with hnone | hsome
  · rw [decodeEscape, hnone]
    dsimp only
    rw [if_neg hcode]
  · rw [decodeEscape, hsome]

/-- A spelling is the character itself, or a backslash and an escape sequence that ends
where it does whatever comes behind it. -/
theorem plain_or_escape {quote : Char} {text : List Char} (h : Spelling quote c text) :
    (text = [c] ∧ isPlain quote c = true) ∨
      ∃ tail, text = '\\' :: tail ∧ (∀ next, IsEscape tail next) ∧ decodeEscape tail = c := by
  cases h with
  | plain hquote hescape hline => exact .inl ⟨rfl, by simp [isPlain, hquote, hescape, hline]⟩
  | @letter e he =>
    refine .inr ⟨[e], rfl, escape_one he, ?_⟩
    rw [decodeEscape, escapeChar?_of_mem he]
  | @hex ds hds hlength hc =>
    have hne : ds ≠ [] := List.ne_nil_of_length_pos (by omega)
    refine .inr ⟨_, rfl, fun next => .hex hds (by omega) (fun hlt => by omega), ?_⟩
    exact decodeEscape_code (.inl rfl) (stripBraces_digits hds hne) hds hne hc
  | @unicode ds hds hlength hc =>
    have hne : ds ≠ [] := List.ne_nil_of_length_pos (by omega)
    refine .inr ⟨_, rfl, fun next => ?_, ?_⟩
    · exact .unicode hds (by omega) (fun hlt => by omega) fun hnil => absurd hnil hne
    · exact decodeEscape_code (.inr rfl) (stripBraces_digits hds hne) hds hne hc
  | @braced ds hds hne hc =>
    refine .inr ⟨_, rfl, fun next => .braced hds, ?_⟩
    have hstrip : stripBraces (['\x7b'] ++ (ds ++ ['\x7d'])) = ds :=
      stripBraces_eq (List.forall_mem_singleton.2 rfl) (List.forall_mem_singleton.2 rfl)
        (fun d hd => isBrace_hexDigit (hds d hd)) hne
    exact decodeEscape_code (.inr rfl) hstrip hds hne hc
  | escaped hc =>
    refine .inr ⟨[c], rfl, fun next => ?_, decodeEscape_self hc⟩
    simp only [meaningful, List.mem_cons, List.not_mem_nil, or_false, not_or] at hc
    exact .one (by simp [hc]) (by simp [hc]) (by simp [hc])

-- ==================================================================== texts

/-- However the characters of a text are spelled, the pieces between the quotes stand for
the text. -/
theorem exists_pieces_spelled {quote : Char} {text : List Char} {spellings : List (List Char)}
    (h : List.Forall₂ (Spelling quote) text spellings) :
    ∃ ps, Pieces quote ps ∧ piecesText ps = spellings.flatten ∧ decodePieces ps = text := by
  induction h with
  | nil => exact ⟨[], .nil, rfl, rfl⟩
  | @cons c spelling text spellings hc _ ih =>
    obtain ⟨ps, hps, htext, hdecode⟩ := ih
    rw [List.flatten_cons, ← htext]
    rw [← hdecode]
    rcases plain_or_escape hc with ⟨rfl, hplain⟩ | ⟨tail, rfl, htail, hchar⟩
    · exact exists_plain hps hplain
    · exact exists_escaped hps htail hchar

/-- A spelled text as a string literal. -/
theorem exists_literal_spelled {quote : Char} (hquote : quote = '"' ∨ quote = '\'')
    {text : List Char} {spellings : List (List Char)}
    (h : List.Forall₂ (Spelling quote) text spellings) :
    ∃ literal : StringLiteral, literal.text = quote :: spellings.flatten ++ [quote] ∧
      decodePieces literal.pieces = text := by
  obtain ⟨ps, hps, htext, hdecode⟩ := exists_pieces_spelled h
  refine ⟨⟨quote, ps, hquote, hps⟩, ?_, hdecode⟩
  rw [← htext]
  rfl

end Literal

end SamScript
