/-
Strings in JSON, written and read back. The writer spells a character in one
of four ways: as it is, behind a backslash, as one code unit, or as two. Each
way has its lemma, which says that the reader takes exactly what was written
and goes on behind it; a string is read back by induction over its characters
(`readString_quoted`).
-/
import SamScript.Json.Writer
import SamScript.Proofs.Decimal.Digits
import SamScript.Proofs.Json.Members

namespace SamScript

-- ========================================================== hexadecimal

namespace Text

/-- The last digit of a number of fixed width, and the others in front. -/
theorem hex_succ {width : Nat} (hwidth : 0 < width) (n : Nat) :
    hex (width + 1) n = hex width (n / 16) ++ [Nat.digitChar (n % 16)] := by
  unfold hex
  by_cases h : n < 16
  · obtain ⟨w, rfl⟩ := Nat.exists_eq_succ_of_ne_zero (Nat.ne_of_gt hwidth)
    rw [Nat.toDigits_of_lt_base h, Nat.mod_eq_of_lt h, Nat.div_eq_of_lt h, Nat.toDigits_zero]
    simp [List.replicate_succ']
  · rw [Nat.toDigits_of_base_le (by decide) (Nat.not_lt.1 h)]
    simp

theorem hex_one {n : Nat} (h : n < 16) : hex 1 n = [Nat.digitChar n] := by
  rw [hex, Nat.toDigits_of_lt_base h]
  rfl

/-- The four digits of a code unit. -/
theorem hex_four {n : Nat} (h : n < 0x10000) :
    hex 4 n = [Nat.digitChar (n / 16 / 16 / 16), Nat.digitChar (n / 16 / 16 % 16),
      Nat.digitChar (n / 16 % 16), Nat.digitChar (n % 16)] := by
  rw [hex_succ (by decide), hex_succ (by decide), hex_succ (by decide), hex_one (by omega)]
  rfl

end Text

namespace Json

-- ============================================================ code units

theorem digitValue?_digitChar : ∀ d < 16, (Nat.digitChar d).toNat < 0x80 ∧
    Decimal.digitValue? 16 (Nat.digitChar d) = some d := by
  decide

/-- The reader finds the code unit that was written. -/
theorem fourDigits?_hex {n : Nat} (h : n < 0x10000) (rest : List Char) :
    fourDigits? (Text.hex 4 n ++ rest) = some (n, rest) := by
  have ha := digitValue?_digitChar (n / 16 / 16 / 16) (by omega)
  have hb := digitValue?_digitChar (n / 16 / 16 % 16) (by omega)
  have hc := digitValue?_digitChar (n / 16 % 16) (by omega)
  have hd := digitValue?_digitChar (n % 16) (by omega)
  simp only [Text.hex_four h, List.cons_append, List.nil_append, fourDigits?, ha, hb, hc, hd,
    if_true, Option.bind_eq_bind, Option.bind_some, Option.pure_def, Option.some.injEq,
    Prod.mk.injEq, and_true]
  omega

theorem unitEscape_append (unit : Nat) (rest : List Char) :
    unitEscape unit ++ rest = '\\' :: 'u' :: (Text.hex 4 unit ++ rest) := rfl

/-- A character of the first plane is one code unit, and no half of a pair. -/
theorem unitChar_toNat {c : Char} (h : c.toNat < 0x10000) (rest : List Char) :
    unitChar c.toNat rest = (c, rest) := by
  have hvalid := c.valid
  simp only [UInt32.isValidChar, Nat.isValidChar, Char.toNat_val] at hvalid
  unfold unitChar
  rw [if_neg (by omega), if_neg (by omega), Char.ofNat_toNat]

/-- Two halves, the second one in the escape that follows. -/
theorem unitChar_halves {high low : Nat} {cs after : List Char}
    (hhigh : 0xD800 ≤ high ∧ high < 0xDC00) (hlow : 0xDC00 ≤ low ∧ low < 0xE000)
    (hdigits : fourDigits? cs = some (low, after)) :
    unitChar high ('\\' :: 'u' :: cs) =
      (Char.ofNat (0x10000 + (high - 0xD800) * 0x400 + (low - 0xDC00)), after) := by
  simp only [unitChar, hhigh, hlow, hdigits, and_self, if_true]

/-- The first half of a character is a code unit. -/
theorem high_lt (c : Char) : 0xD800 + (c.toNat - 0x10000) / 0x400 < 0x10000 := by
  have hvalid := c.valid
  simp only [UInt32.isValidChar, Nat.isValidChar, Char.toNat_val] at hvalid
  omega

/-- A character beyond the first plane is put together from its halves. -/
theorem unitChar_pair {c : Char} (h : 0x10000 ≤ c.toNat) (rest : List Char) :
    unitChar (0xD800 + (c.toNat - 0x10000) / 0x400)
      (unitEscape (0xDC00 + (c.toNat - 0x10000) % 0x400) ++ rest) = (c, rest) := by
  have hvalid := c.valid
  simp only [UInt32.isValidChar, Nat.isValidChar, Char.toNat_val] at hvalid
  have hdigits := fourDigits?_hex (n := 0xDC00 + (c.toNat - 0x10000) % 0x400) (by omega) rest
  have hcode : 0x10000 + (0xD800 + (c.toNat - 0x10000) / 0x400 - 0xD800) * 0x400 +
      (0xDC00 + (c.toNat - 0x10000) % 0x400 - 0xDC00) = c.toNat := by omega
  rw [unitEscape_append, unitChar_halves (by omega) (by omega) hdigits, hcode, Char.ofNat_toNat]

-- =============================================================== writing

/-- The four ways in which a character stands in a string. -/
theorem stringChar_cases (c : Char) :
    (∃ letter, letter ≠ 'u' ∧ escape? letter = some c ∧ stringChar c = ['\\', letter]) ∨
      (c ≠ '"' ∧ c ≠ '\\' ∧ 0x20 ≤ c.toNat ∧ stringChar c = [c]) ∨
      (c.toNat < 0x10000 ∧ stringChar c = unitEscape c.toNat) ∨
      (0x10000 ≤ c.toNat ∧ stringChar c =
        unitEscape (0xD800 + (c.toNat - 0x10000) / 0x400) ++
          unitEscape (0xDC00 + (c.toNat - 0x10000) % 0x400)) := by
  by_cases hspecial : c ∈ ['"', '\\', '\n', '\r', '\t', '\x08', '\x0c']
  · left
    simp only [List.mem_cons, List.not_mem_nil, or_false] at hspecial
    rcases hspecial with rfl | rfl | rfl | rfl | rfl | rfl | rfl
    · exact ⟨'"', by decide, rfl, rfl⟩
    · exact ⟨'\\', by decide, rfl, rfl⟩
    · exact ⟨'n', by decide, rfl, rfl⟩
    · exact ⟨'r', by decide, rfl, rfl⟩
    · exact ⟨'t', by decide, rfl, rfl⟩
    · exact ⟨'b', by decide, rfl, rfl⟩
    · exact ⟨'f', by decide, rfl, rfl⟩
  · right
    simp only [List.mem_cons, List.not_mem_nil, or_false, not_or] at hspecial
    obtain ⟨hquote, hslash, hfeed, hreturn, htab, hback, hform⟩ := hspecial
    unfold stringChar
    rw [if_neg (not_or.2 ⟨hquote, hslash⟩), if_neg hfeed, if_neg hreturn, if_neg htab, if_neg hback,
      if_neg hform]
    split
    · rename_i hcode
      exact .inl ⟨hquote, hslash, hcode.1, rfl⟩
    · split
      · rename_i hcode
        exact .inr (.inl ⟨hcode, rfl⟩)
      · rename_i hcode
        exact .inr (.inr ⟨Nat.not_lt.1 hcode, rfl⟩)

-- =============================================================== reading

/-- Whether a reader took a value and left a text. -/
def Gives {α : Type} {bound : Nat} (x : Except Fault (Reading Char α bound)) (value : α)
    (rest : List Char) : Prop :=
  x.map Reading.pair = .ok (value, rest)

theorem Gives.exists {α : Type} {bound : Nat} {x : Except Fault (Reading Char α bound)} {value : α}
    {rest : List Char} (h : Gives x value rest) : ∃ shorter, x = .ok ⟨value, rest, shorter⟩ := by
  rcases x with fault | ⟨v, r, shorter⟩ <;> cases h
  exact ⟨shorter, rfl⟩

section

variable {c : Char} {cs text rest : List Char}

/-- A character that stands for itself. -/
theorem Gives.plain (hquote : c ≠ '"') (hslash : c ≠ '\\') (hcode : 0x20 ≤ c.toNat)
    (hmore : Gives (readString cs) text rest) : Gives (readString (c :: cs)) (c :: text) rest := by
  obtain ⟨_, hread⟩ := hmore.exists
  rw [Gives, readString.eq_5 c cs hquote (fun _ h => absurd h hslash) (fun _ _ h => absurd h hslash),
    if_neg (by simp [hslash, Nat.not_lt.2 hcode])]
  simp only [hread]
  rfl

/-- A letter behind a backslash. -/
theorem Gives.letter {letter : Char} (hne : letter ≠ 'u') (hletter : escape? letter = some c)
    (hmore : Gives (readString cs) text rest) :
    Gives (readString ('\\' :: letter :: cs)) (c :: text) rest := by
  obtain ⟨_, hread⟩ := hmore.exists
  rw [Gives, readString.eq_4 letter cs hne]
  simp only [hletter, hread]
  rfl

/-- A code unit, with the one that follows if it needs it. -/
theorem Gives.unit {unit : Nat} {after cs' : List Char}
    (hdigits : fourDigits? cs = some (unit, after)) (hunit : unitChar unit after = (c, cs'))
    (hmore : Gives (readString cs') text rest) :
    Gives (readString ('\\' :: 'u' :: cs)) (c :: text) rest := by
  obtain rfl : (unitChar unit after).1 = c := congrArg Prod.fst hunit
  obtain rfl : (unitChar unit after).2 = cs' := congrArg Prod.snd hunit
  obtain ⟨_, hread⟩ := hmore.exists
  rw [Gives, readString]
  split
  · rename_i hnone
    rw [hdigits] at hnone
    cases hnone
  · rename_i hsome
    rw [hdigits] at hsome
    cases hsome
    simp only [hread]
    rfl

/-- However a character is written in a string, the reader takes it back. -/
theorem Gives.char (hmore : Gives (readString cs) text rest) :
    Gives (readString (stringChar c ++ cs)) (c :: text) rest := by
  rcases stringChar_cases c with ⟨letter, hne, hletter, heq⟩ | ⟨hquote, hslash, hcode, heq⟩ |
    ⟨hcode, heq⟩ | ⟨hcode, heq⟩ <;> rw [heq]
  · exact hmore.letter hne hletter
  · exact hmore.plain hquote hslash hcode
  · exact hmore.unit (fourDigits?_hex hcode cs) (unitChar_toNat hcode cs)
  · rw [List.append_assoc, unitEscape_append]
    exact hmore.unit (fourDigits?_hex (high_lt c) _) (unitChar_pair hcode cs)

end

/-- What the writer puts in quotes is read back, up to the closing quote. -/
theorem readString_quoted (text rest : List Char) :
    Gives (readString (text.flatMap stringChar ++ '"' :: rest)) text rest := by
  induction text with
  | nil => rw [Gives, List.flatMap_nil, List.nil_append, readString]; rfl
  | cons c text ih =>
    rw [List.flatMap_cons, List.append_assoc]
    exact ih.char

end Json

end SamScript
