/-
From a program text to its tokens. The lexical grammar says how far each
word reaches; this module adds the places. A run that fails keeps the tokens
it found before, so that a reader of the stream can see them.
-/
import SamScript.Diagnostic
import SamScript.Token.Scan

namespace SamScript

-- =============================================================== failures

/-- A fault in the words of a program, and where it is. -/
structure LexError where
  fault : Scan.Fault
  span : Span
  deriving DecidableEq, Repr

namespace LexError

def code (e : LexError) : String :=
  match e.fault with
  | .unexpectedCharacter _ => "E001"
  | .unterminatedString => "E002"
  | .unterminatedComment => "E003"
  | .invalidNumber _ => "E004"

def message (e : LexError) : String :=
  match e.fault with
  | .unexpectedCharacter c => "unexpected character '" ++ String.singleton c ++ "'"
  | .unterminatedString => "unterminated string literal"
  | .unterminatedComment => "unterminated multi-line comment (expected closing */)"
  | .invalidNumber text => s!"invalid number literal '{text}'"

def hints (e : LexError) : List String :=
  match e.fault with
  | .unterminatedString => ["string literals must be closed with matching quotes"]
  | _ => []

/-- The report of a failure in a text with these lines. -/
def diagnostic (e : LexError) (lines : List String) : Diagnostic :=
  { code := e.code
    message := e.message
    span := some e.span
    sourceLine := Lines.line? lines e.span.start.line
    hints := e.hints }

end LexError

-- ================================================================= places

namespace Token

/-- Gives the pieces of a string literal their places, from the one of the
first piece on. -/
def placeParts (file : Option String) : Position → List Scan.Piece → List StringPart
  | _, [] => []
  | p, (kind, text) :: rest =>
    ⟨kind, String.ofList text, ⟨p, p.after text, file⟩⟩ :: placeParts file (p.after text) rest

/-- Gives a word its place. The pieces of a string literal begin after its
quote. -/
def ofWord (file : Option String) (p : Position) (w : Scan.Word) : Token :=
  { kind := w.kind
    lexeme := String.ofList w.lexeme
    span := ⟨p, p.after w.lexeme, file⟩
    parts := placeParts file (p.after (w.lexeme.take 1)) w.pieces }

end Token

-- =================================================================== runs

/-- What became of a text: the tokens found, and where the text ended or why
it could not be read on. -/
structure Lexed where
  tokens : List Token
  ending : Except LexError Span

namespace Lexed

/-- Puts one more token in front. -/
def cons (t : Token) (l : Lexed) : Lexed :=
  ⟨t :: l.tokens, l.ending⟩

end Lexed

/-- Splits a text that begins at a place into tokens. -/
def lexFrom (file : Option String) (p : Position) (cs : List Char) : Lexed :=
  match _ht : Scan.takeTrivia cs with
  | .unterminated text comment =>
    ⟨[], .error ⟨.unterminatedComment, ⟨p.after text, (p.after text).after comment, file⟩⟩⟩
  | .skipped text [] => ⟨[], .ok ⟨p.after text, p.after text, file⟩⟩
  | .skipped text (c :: rest) =>
    match _hw : Scan.takeWord c rest with
    | .error (fault, consumed) =>
      ⟨[], .error ⟨fault, ⟨p.after text, (p.after text).after consumed, file⟩⟩⟩
    | .ok w =>
      (lexFrom file ((p.after text).after w.lexeme) w.rest).cons
        (Token.ofWord file (p.after text) w)
termination_by cs.length
decreasing_by
  have h₁ := Scan.length_of_takeWord _hw
  have h₂ := Scan.takeTrivia_whole cs
  rw [_ht, Scan.Trivia.whole] at h₂
  rw [← h₂, List.length_append]
  omega

/-- Splits a program into tokens. -/
def lex (file : Option String) (source : String) : Lexed :=
  lexFrom file {} source.toList

/-- The tokens of a program that has no faulty word. -/
def tokenize (file : Option String) (source : String) : Except LexError TokenList :=
  let run := lex file source
  run.ending.map fun stop => ⟨run.tokens, stop⟩

end SamScript
