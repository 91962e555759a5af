/-
Numbers that are written in ASCII digits. The number readers are loose about
blanks, underscores and digits of other scripts; on a text of plain digits
none of that matters, and what they read is the number that the digits spell
(`readInteger_digits`). What is written of a whole number is such a text
(`isDigits_toDigits`).
-/
import SamScript.Decimal.Read
import SamScript.Decimal.Syntax

namespace SamScript.Decimal

-- ============================================================= characters

/-- Whether a text consists of ASCII digits. -/
def IsDigits (ds : List Char) : Prop :=
  ∀ c ∈ ds, isDigit c = true

/-- The code of an ASCII digit lies in a range of ten. -/
theorem isDigit_iff {c : Char} : isDigit c = true ↔ 0x30 ≤ c.toNat ∧ c.toNat ≤ 0x39 := by
  simp only [isDigit, Bool.and_eq_true, decide_eq_true_eq, Char.le_def, UInt32.le_iff_toNat_le]
  exact Iff.rfl

theorem isDigit_eq (c : Char) : isDigit c = c.isDigit := by
  simp only [isDigit, Char.isDigit, Char.le_def, ge_iff_le]

/-- A digit counts for itself in every base that has it. -/
theorem digitValue?_digit {c : Char} (h : isDigit c = true) {base : Nat} (hbase : 10 ≤ base) :
    digitValue? base c = some (c.toNat - 0x30) := by
  have hcode := isDigit_iff.1 h
  have hascii : c.toNat < 0x80 := by omega
  rw [isDigit_eq] at h
  have hlt : c.toNat - 0x30 < base := by omega
  simp [digitValue?, Text.decimalValue?, hascii, h, hlt]

theorem isSpace_digit {c : Char} (h : isDigit c = true) : isSpace c = false := by
  have hcode := isDigit_iff.1 h
  simp only [isSpace, Text.isBlank, Bool.and_eq_false_imp]
  intro hblank
  simp at hblank
  omega

-- ================================================================= digits

/-- Whether a text goes on with neither a digit nor an underscore, so that a
run of digits in front of it ends there. -/
def Stops (base : Nat) (rest : List Char) : Prop :=
  ∀ c ∈ rest.head?, digitValue? base c = none ∧ c ≠ '_'

theorem stops_nil (base : Nat) : Stops base [] :=
  fun _ hc => nomatch hc

theorem takeDigits_stops {base : Nat} {rest : List Char} (h : Stops base rest) (between : Bool) :
    takeDigits base between rest = ([], rest) := by
  cases rest with
  | nil => rfl
  | cons c rest =>
    obtain ⟨hnone, hne⟩ := h c rfl
    rw [takeDigits.eq_def]
    simp only [hnone]
    split
    · exact absurd rfl hne
    · rfl

/-- A run of digits is taken whole, whatever they are digits of. -/
theorem takeDigits_run {base : Nat} {value : Char → Nat} {ds rest : List Char}
    (hds : ∀ c ∈ ds, digitValue? base c = some (value c)) (hrest : Stops base rest)
    (between : Bool) : takeDigits base between (ds ++ rest) = (ds.map value, rest) := by
  induction ds generalizing between with
  | nil => exact takeDigits_stops hrest between
  | cons c ds ih =>
    obtain ⟨hc, hds⟩ := List.forall_mem_cons.1 hds
    rw [List.cons_append, takeDigits.eq_def]
    simp only [hc, ih hds, List.map_cons]

theorem takeDigits_digits {base : Nat} (hbase : 10 ≤ base) {ds rest : List Char}
    (hds : IsDigits ds) (hrest : Stops base rest) (between : Bool) :
    takeDigits base between (ds ++ rest) = (ds.map fun c => c.toNat - 0x30, rest) :=
  takeDigits_run (fun c hc => digitValue?_digit (hds c hc) hbase) hrest between

/-- The number that digits spell is the one that the library reads. -/
theorem ofDigits_map (ds : List Char) :
    ofDigits 10 (ds.map fun c => c.toNat - 0x30) = Nat.ofDigitChars 10 ds 0 := by
  rw [Nat.ofDigitChars_eq_foldl, ofDigits, List.foldl_map]
  congr 1
  funext n c
  rw [Nat.mul_comm]
  rfl

theorem trim_eq_self {text : List Char} (h : ∀ c ∈ text, isSpace c = false) : trim text = text := by
  have hdrop : ∀ cs : List Char, (∀ c ∈ cs, isSpace c = false) → cs.dropWhile isSpace = cs := by
    intro cs hcs
    cases cs with
    | nil => rfl
    | cons c cs => rw [List.dropWhile_cons, hcs c List.mem_cons_self]; rfl
  rw [trim, hdrop text h, hdrop _ fun c hc => h c (List.mem_reverse.1 hc), List.reverse_reverse]

/-- In base ten no letter tells the base. -/
theorem dropBase_ten (text : List Char) : dropBase 10 text = text := by
  unfold dropBase
  split
  · rw [if_neg]
    simp [baseLetter?]
  · rfl

-- ========================================================== whole numbers

/-- Reading digits behind a sign or none: too many of them are refused, and
nothing else is. -/
theorem readInteger_digits {text ds : List Char} {negative : Bool}
    (hspace : ∀ c ∈ text, isSpace c = false) (hsign : takeSign text = (negative, ds))
    (hds : IsDigits ds) (hne : ds ≠ []) :
    readInteger 10 text =
      if ds.length > digitLimit then .error (.tooLong ds.length)
      else .ok (if negative then -(Nat.ofDigitChars 10 ds 0 : Int) else Nat.ofDigitChars 10 ds 0) := by
  have htake : takeDigits 10 false ds = (ds.map fun c => c.toNat - 0x30, []) := by
    simpa using takeDigits_digits (Nat.le_refl 10) hds (stops_nil 10) false
  unfold readInteger
  simp only [trim_eq_self hspace, hsign, dropBase_ten, htake, ofDigits_map, List.length_map,
    List.isEmpty_map, List.isEmpty_iff, hne, List.isEmpty_nil, true_and, false_or, not_true_eq_false,
    if_false]

/-- Digits without a sign. -/
theorem readInteger_unsigned {ds : List Char} (hds : IsDigits ds) (hne : ds ≠ []) :
    readInteger 10 ds =
      if ds.length > digitLimit then .error (.tooLong ds.length)
      else .ok (Nat.ofDigitChars 10 ds 0 : Int) := by
  have hsign : takeSign ds = (false, ds) := by
    cases ds with
    | nil => rfl
    | cons c ds =>
      have hc := isDigit_iff.1 (hds c List.mem_cons_self)
      unfold takeSign
      split
      · rename_i heq; cases heq; exact absurd hc (by decide)
      · rename_i heq; cases heq; exact absurd hc (by decide)
      · rfl
  rw [readInteger_digits (fun c hc => isSpace_digit (hds c hc)) hsign hds hne]
  rfl

/-- Digits behind a minus sign. -/
theorem readInteger_negative {ds : List Char} (hds : IsDigits ds) (hne : ds ≠ []) :
    readInteger 10 ('-' :: ds) =
      if ds.length > digitLimit then .error (.tooLong ds.length)
      else .ok (-(Nat.ofDigitChars 10 ds 0 : Int)) := by
  have hspace : ∀ c ∈ '-' :: ds, isSpace c = false :=
    List.forall_mem_cons.2 ⟨by decide, fun c hc => isSpace_digit (hds c hc)⟩
  rw [readInteger_digits hspace rfl hds hne]
  rfl

-- ================================================================ written

theorem isDigits_toDigits (n : Nat) : IsDigits (Nat.toDigits 10 n) := by
  intro c hc
  rw [isDigit_eq]
  exact Nat.isDigit_of_mem_toDigits (by decide) (by decide) hc

/-- Only zero is written with a leading zero. -/
theorem head?_toDigits {n : Nat} (h : n ≠ 0) : (Nat.toDigits 10 n).head? ≠ some '0' := by
  induction n using Nat.strongRecOn with
  | ind n ih =>
    by_cases hlt : n < 10
    · rw [Nat.toDigits_of_lt_base hlt]
      simpa using h
    · have hfront := ih (n / 10) (by omega) (by omega)
      rw [Nat.toDigits_of_base_le (by decide) (by omega), List.head?_append]
      cases hd : Nat.toDigits 10 (n / 10) with
      | nil => exact absurd hd Nat.toDigits_ne_nil
      | cons c ds => simpa [hd] using hfront

/-- What is written of a whole number. -/
theorem toList_toString (n : Int) :
    (toString n).toList =
      if 0 ≤ n then Nat.toDigits 10 n.natAbs else '-' :: Nat.toDigits 10 n.natAbs := by
  rw [Int.toString_eq_repr, Int.repr_eq_if]
  split
  · rw [Nat.toList_repr, show n.toNat = n.natAbs by omega]
  · rw [String.toList_append, Nat.toList_repr, show (-n).toNat = n.natAbs by omega]
    rfl

end SamScript.Decimal
