/-
The ASCII spelling of numbers, piece by piece: what programs, JSON and
configuration files share of it.
-/
namespace SamScript.Decimal

/-- The ten ASCII digits. -/
def isDigit (c : Char) : Bool :=
  '0' ≤ c && c ≤ '9'

/-- The ASCII digits of base sixteen. -/
def isHexDigit (c : Char) : Bool :=
  isDigit c || ('a' ≤ c && c ≤ 'f') || ('A' ≤ c && c ≤ 'F')

/-- Splits off a fraction, its point included. A point that no digit follows
is none. -/
def takeFraction : List Char → List Char × List Char
  | '.' :: rest =>
    if (rest.takeWhile isDigit).isEmpty then ([], '.' :: rest)
    else ('.' :: rest.takeWhile isDigit, rest.dropWhile isDigit)
  | rest => ([], rest)

theorem takeFraction_append (cs : List Char) :
    (takeFraction cs).1 ++ (takeFraction cs).2 = cs := by
  unfold takeFraction
  split
  · split
    · rfl
    · simp [List.takeWhile_append_dropWhile]
  · rfl

end SamScript.Decimal
