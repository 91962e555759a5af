/-
Places in a program text. A place is counted three ways at once: by line and
column in characters, both from one, and by its offset in bytes. Only a line
feed starts a new line here.
-/
import SamScript.Text.Lines
import SamScript.Text.Utf8

namespace SamScript

/-- A place between two characters of a text. -/
structure Position where
  line : Nat := 1
  column : Nat := 1
  offset : Nat := 0
  deriving DecidableEq, Repr

namespace Position

/-- The place after one more character. -/
def advance (p : Position) (c : Char) : Position :=
  if c = '\n' then ⟨p.line + 1, 1, p.offset + c.utf8Size⟩
  else ⟨p.line, p.column + 1, p.offset + c.utf8Size⟩

/-- The place after more text. -/
def after (p : Position) (text : List Char) : Position :=
  text.foldl advance p

@[simp] theorem after_nil (p : Position) : p.after [] = p := rfl

@[simp] theorem after_cons (p : Position) (c : Char) (text : List Char) :
    p.after (c :: text) = (p.advance c).after text := rfl

theorem after_append (p : Position) (a b : List Char) :
    p.after (a ++ b) = (p.after a).after b := by
  simp [after]

theorem offset_after (p : Position) (text : List Char) :
    (p.after text).offset = p.offset + Utf8.width text := by
  induction text generalizing p with
  | nil => simp [Utf8.width]
  | cons c rest ih =>
    rw [after_cons, ih]
    simp only [advance, Utf8.width]
    split <;> simp only <;> omega

end Position

/-- A stretch of a text, with the name of the file the text is from. -/
structure Span where
  start : Position
  stop : Position
  file : Option String := none
  deriving DecidableEq, Repr

namespace Span

/-- The file's name and a colon, if there is a name. -/
def filePart (span : Span) : String :=
  match span.file with
  | some name => if name.isEmpty then "" else name ++ ":"
  | none => ""

/-- Where the stretch begins, in words. -/
def startText (span : Span) : String :=
  s!"{span.filePart}{span.start.line}:{span.start.column}"

/-- The whole stretch, in words. -/
def text (span : Span) : String :=
  s!"{span.startText}-{span.stop.line}:{span.stop.column}"

end Span

end SamScript
