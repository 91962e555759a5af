/-
What the words of a program look like. A kind of token that is no name,
number or string has one spelling, and its words are spelled that way; a
string literal is its pieces, none of them empty, between two quotes.
-/
import SamScript.Token.Scan

namespace SamScript

/-- The one spelling of the words of a kind; names, numbers and strings have
none. -/
def TokenKind.spelling? : TokenKind → Option String
  | .number | .string | .identifier => none
  | .let_ => some "let" | .interface_ => some "interface" | .load => some "load"
  | .return_ => some "return" | .if_ => some "if" | .else_ => some "else"
  | .plus => some "+" | .minus => some "-" | .star => some "*" | .slash => some "/"
  | .percent => some "%"
  | .lt => some "<" | .gt => some ">" | .le => some "<=" | .ge => some ">="
  | .eq => some "==" | .ne => some "!="
  | .and => some "&&" | .or => some "||"
  | .assign => some "="
  | .lbrace => some "\x7b" | .rbrace => some "\x7d" | .lparen => some "(" | .rparen => some ")"
  | .lbracket => some "[" | .rbracket => some "]"
  | .semicolon => some ";" | .comma => some "," | .dot => some "." | .doubleArrow => some "=>"

namespace Scan

-- ============================================================= spellings

theorem spelling_of_keyword? {name : List Char} {kind : TokenKind}
    (h : TokenKind.keyword? name = some kind) : kind.spelling? = some (String.ofList name) := by
  unfold TokenKind.keyword? at h
  split at h <;> cases h <;> rfl

theorem spelling_of_symbol? {cs lexeme rest : List Char} {kind : TokenKind}
    (h : symbol? cs = some (kind, lexeme, rest)) :
    kind.spelling? = some (String.ofList lexeme) := by
  unfold symbol? at h
  split at h <;> cases h <;> rfl

-- =============================================================== strings

theorem mem_fragment {text : List Char} {p : Piece} (h : p ∈ fragment text) : p.2 ≠ [] := by
  unfold fragment at h
  split at h
  · cases h
  · rename_i hne
    rw [List.mem_singleton.1 h]
    exact fun he => hne (List.isEmpty_iff.2 he)

/-- No piece of a string literal is empty. -/
theorem takePieces_ne_nil {quote : Char} {cs rest : List Char} {pieces : List Piece}
    (h : takePieces quote cs = .ok (pieces, rest)) : ∀ p ∈ pieces, p.2 ≠ [] := by
  fun_induction takePieces quote cs generalizing pieces rest with
  | case1 => cases h
  | case2 => cases h
  | case3 cs after hd ps r hr ih =>
    cases h
    intro p hp
    rcases List.mem_append.1 hp with hp | hp
    · exact mem_fragment hp
    · rcases List.mem_cons.1 hp with rfl | hp
      · exact List.cons_ne_nil _ _
      · exact ih hr p hp
  | case4 =>
    cases h
    exact fun p hp => mem_fragment hp
  | case5 => cases h

/-- What a string literal looks like. -/
structure Word.Quoted (w : Word) (quote : Char) : Prop where
  quote_eq : quote = '"' ∨ quote = '\''
  lexeme_eq : w.lexeme = quote :: piecesText w.pieces ++ [quote]
  pieces_ne_nil : ∀ p ∈ w.pieces, p.2 ≠ []

theorem Word.Quoted.width_quote {w : Word} {quote : Char} (h : w.Quoted quote) :
    quote.utf8Size = 1 := by
  rcases h.quote_eq with rfl | rfl <;> rfl

-- ================================================================= words

/-- The ways to be a word. -/
theorem takeWord_cases {c : Char} {cs : List Char} {w : Word} (h : takeWord c cs = .ok w) :
    w.kind = .string ∧ w.Quoted c ∨ w.kind = .number ∨
      w.kind = (TokenKind.keyword? w.lexeme).getD .identifier ∨
      symbol? (c :: cs) = some (w.kind, w.lexeme, w.rest) := by
  unfold takeWord at h
  split at h
  · rename_i hq
    split at h
    · cases h
    · rename_i pieces rest hp
      cases h
      exact .inl ⟨rfl, hq, rfl, takePieces_ne_nil hp⟩
  · split at h
    · split at h <;> cases h
      exact .inr (.inl rfl)
    · split at h
      · cases h
        exact .inr (.inr (.inl rfl))
      · split at h
        · rename_i hs
          cases h
          exact .inr (.inr (.inr hs))
        · cases h

/-- A word is spelled the way its kind is, if that has a spelling. -/
theorem takeWord_spelling {c : Char} {cs : List Char} {w : Word} {text : String}
    (h : takeWord c cs = .ok w) (ht : w.kind.spelling? = some text) :
    String.ofList w.lexeme = text := by
  rcases takeWord_cases h with ⟨hk, -⟩ | hk | hk | hs
  · rw [hk] at ht
    cases ht
  · rw [hk] at ht
    cases ht
  · cases hname : TokenKind.keyword? w.lexeme with
    | none =>
      rw [hk, hname] at ht
      cases ht
    | some kind =>
      rw [hk, hname, Option.getD_some, spelling_of_keyword? hname] at ht
      exact Option.some.inj ht
  · rw [spelling_of_symbol? hs] at ht
    exact Option.some.inj ht

/-- A word that is a string literal is its pieces between two quotes. -/
theorem takeWord_quoted {c : Char} {cs : List Char} {w : Word} (h : takeWord c cs = .ok w)
    (hstring : w.kind = .string) : w.Quoted c := by
  rcases takeWord_cases h with ⟨-, hq⟩ | hk | hk | hs
  · exact hq
  · rw [hk] at hstring
    cases hstring
  · cases hname : TokenKind.keyword? w.lexeme with
    | none =>
      rw [hk, hname] at hstring
      cases hstring
    | some kind =>
      have hspell := spelling_of_keyword? hname
      rw [hk, hname, Option.getD_some] at hstring
      rw [hstring] at hspell
      cases hspell
  · have hspell := spelling_of_symbol? hs
    rw [hstring] at hspell
    cases hspell

end Scan

end SamScript
