/-
Numbers of a program have values. The readers of numbers take more than the
language calls a number, so what the language calls one they read: a number with
a point or an exponent as a fraction, always (`readDouble_number`), and any other
as a whole number, unless it has too many digits (`number?_spelled`).
-/
import SamScript.Proofs.Decimal.Digits
import SamScript.Proofs.Token.Lexeme
import SamScript.Value.Literal

namespace SamScript

-- =================================================================== digits

namespace Decimal

/-- Digits of a number, with what stops them. -/
theorem takeDigits_number (ds : SamScript.Digits) {rest : List Char} (h : Stops 10 rest) (between : Bool) :
    takeDigits 10 between (ds.text ++ rest) = (ds.text.map fun c => c.toNat - 0x30, rest) :=
  takeDigits_digits (Nat.le_refl 10) ds.digit h between

theorem map_digits_ne_nil (ds : SamScript.Digits) : (ds.text.map fun c => c.toNat - 0x30) ≠ [] := by
  rw [Ne, List.map_eq_nil_iff]
  exact ds.ne_nil

/-- The letter of an exponent stops digits, and so does a point. -/
theorem stops_exponent (k : Number) : Stops 10 k.exponentText := by
  unfold Number.exponentText
  cases k.exponent with
  | none => exact stops_nil 10
  | some e =>
    intro c hc
    cases hc
    rcases e.letter_eq with h | h <;> rw [h] <;> decide

theorem stops_fraction (k : Number) : Stops 10 (k.fractionText ++ k.exponentText) := by
  have hpoint : digitValue? 10 '.' = none ∧ '.' ≠ '_' := by decide
  unfold Number.fractionText
  cases k.fraction with
  | none => exact stops_exponent k
  | some ds =>
    intro c hc
    cases hc
    exact hpoint

/-- A sign, and then something that begins with a digit. -/
theorem takeSign_signed {sign : List Char} (hsign : sign = [] ∨ sign = ['-'] ∨ sign = ['+'])
    (ds : SamScript.Digits) (rest : List Char) :
    ∃ negative, takeSign (sign ++ (ds.text ++ rest)) = (negative, ds.text ++ rest) := by
  rcases hsign with rfl | rfl | rfl
  · obtain ⟨c, cs, hds⟩ := List.exists_cons_of_ne_nil ds.ne_nil
    have hc := isDigit_iff.1 (ds.digit c (hds ▸ List.mem_cons_self))
    rw [hds, List.nil_append, List.cons_append]
    refine ⟨false, ?_⟩
    unfold takeSign
    split
    · rename_i heq
      cases heq
      exact absurd hc (by decide)
    · rename_i heq
      cases heq
      exact absurd hc (by decide)
    · rfl
  · exact ⟨true, rfl⟩
  · exact ⟨false, rfl⟩

theorem takeSign_exponent (e : Exponent) :
    ∃ down, takeSign (e.sign.toList ++ e.digits.text) = (down, e.digits.text) := by
  have hsign : e.sign.toList = [] ∨ e.sign.toList = ['-'] ∨ e.sign.toList = ['+'] := by
    have hmark := e.sign_eq
    cases hs : e.sign with
    | none => exact .inl rfl
    | some c =>
      rcases hmark c hs with rfl | rfl
      · exact .inr (.inr rfl)
      · exact .inr (.inl rfl)
  simpa using takeSign_signed hsign e.digits []

-- ================================================================ fractions

theorem isSpace_exponentText (k : Number) : ∀ c ∈ k.exponentText, isSpace c = false := by
  have hmarks : isSpace 'e' = false ∧ isSpace 'E' = false ∧ isSpace '+' = false ∧
      isSpace '-' = false := by decide
  unfold Number.exponentText
  cases k.exponent with
  | none => exact fun c hc => nomatch hc
  | some e =>
    refine List.forall_mem_cons.2 ⟨?_, List.forall_mem_append.2 ⟨fun c hc => ?_, fun c hc => ?_⟩⟩
    · rcases e.letter_eq with h | h <;> rw [h]
      · exact hmarks.1
      · exact hmarks.2.1
    · rcases e.sign_eq c (Option.mem_toList.1 hc) with rfl | rfl
      · exact hmarks.2.2.1
      · exact hmarks.2.2.2
    · exact isSpace_digit (e.digits.digit c hc)

/-- There is no blank in a number, nor in its sign. -/
theorem isSpace_number {sign : List Char} (hsign : sign = [] ∨ sign = ['-']) (k : Number) :
    ∀ c ∈ sign ++ k.text, isSpace c = false := by
  have hdigits (ds : SamScript.Digits) : ∀ c ∈ ds.text, isSpace c = false :=
    fun c hc => isSpace_digit (ds.digit c hc)
  have hmarks : isSpace '-' = false ∧ isSpace '.' = false := by decide
  refine List.forall_mem_append.2 ⟨fun c hc => ?_, List.forall_mem_append.2 ⟨hdigits _,
    List.forall_mem_append.2 ⟨?_, isSpace_exponentText k⟩⟩⟩
  · rcases hsign with rfl | rfl
    · cases hc
    · rw [List.mem_singleton.1 hc]
      exact hmarks.1
  · unfold Number.fractionText
    cases k.fraction with
    | none => exact fun c hc => nomatch hc
    | some ds => exact List.forall_mem_cons.2 ⟨hmarks.2, hdigits ds⟩

/-- Every number can be read as a fraction. -/
theorem readDouble_number {sign : List Char} (hsign : sign = [] ∨ sign = ['-']) (k : Number) :
    ∃ x, readDouble (sign ++ k.text) = .ok x := by
  obtain ⟨negative, htake⟩ :=
    takeSign_signed (hsign.imp_right .inl) k.whole (k.fractionText ++ k.exponentText)
  have hwhole := takeDigits_number k.whole (stops_fraction k) false
  have hstops := stops_exponent k
  have hne (ds : SamScript.Digits) : (ds.text.map fun c => c.toNat - 0x30).isEmpty = false :=
    List.isEmpty_eq_false_iff.2 (map_digits_ne_nil ds)
  have hsplit : sign ++ k.text = sign ++ (k.whole.text ++ (k.fractionText ++ k.exponentText)) := rfl
  unfold readDouble
  rw [trim_eq_self (isSpace_number hsign k), hsplit, htake]
  dsimp only
  rw [hwhole]
  dsimp only
  unfold Number.fractionText
  -- the parts of a number decide each how its own characters are read
  cases k.fraction with
  | none =>
    unfold Number.exponentText
    cases k.exponent with
    | none => simp [hne]
    | some e =>
      obtain ⟨down, hdown⟩ := takeSign_exponent e
      have hdigits := takeDigits_number e.digits (stops_nil 10) false
      rw [List.append_nil] at hdigits
      rcases e.letter_eq with h | h <;> simp [Exponent.text, h, hne, hdown, hdigits]
  | some ds =>
    simp only [Option.elim_some, List.cons_append, takeDigits_number ds hstops]
    unfold Number.exponentText
    cases k.exponent with
    | none => simp [hne]
    | some e =>
      obtain ⟨down, hdown⟩ := takeSign_exponent e
      have hdigits := takeDigits_number e.digits (stops_nil 10) false
      rw [List.append_nil] at hdigits
      rcases e.letter_eq with h | h <;> simp [Exponent.text, h, hne, hdown, hdigits]

end Decimal

-- ================================================================= literals

/-- A number without a point and without the letter of an exponent is whole. -/
theorem Number.text_eq_whole (k : Number) (h : ∀ c ∈ k.text, c ≠ '.' ∧ c ≠ 'e' ∧ c ≠ 'E') :
    k.text = k.whole.text := by
  have hfraction : k.fractionText = [] := by
    have hmem : ∀ c ∈ k.fractionText, c ∈ k.text := fun c hc =>
      List.mem_append_right _ (List.mem_append_left _ hc)
    unfold fractionText at hmem ⊢
    cases hk : k.fraction with
    | none => rfl
    | some ds =>
      rw [hk] at hmem
      exact absurd rfl (h '.' (hmem '.' List.mem_cons_self)).1
  have hexponent : k.exponentText = [] := by
    have hmem : ∀ c ∈ k.exponentText, c ∈ k.text := fun c hc =>
      List.mem_append_right _ (List.mem_append_right _ hc)
    unfold exponentText at hmem ⊢
    cases hk : k.exponent with
    | none => rfl
    | some e =>
      rw [hk] at hmem
      obtain ⟨-, he, hE⟩ := h e.letter (hmem e.letter List.mem_cons_self)
      rcases e.letter_eq with hletter | hletter
      · exact absurd hletter he
      · exact absurd hletter hE
  rw [text, hfraction, hexponent, List.append_nil, List.append_nil]

namespace Literal

open Decimal

/-- The only number that has no value is a whole one with too many digits. -/
theorem number?_spelled {φ : Type} {sign : List Char} (hsign : sign = [] ∨ sign = ['-'])
    (k : Number) {fault : Fault}
    (h : (number? (sign ++ k.text) : Except Fault (Option (Value φ))) = .error fault) :
    k.text = k.whole.text ∧ digitLimit < k.whole.text.length ∧
      fault = .tooLong k.whole.text.length := by
  unfold number? at h
  split at h
  · obtain ⟨x, hx⟩ := readDouble_number hsign k
    rw [hx] at h
    cases h
  · rename_i hplain
    have hmarks : ∀ c ∈ k.text, c ≠ '.' ∧ c ≠ 'e' ∧ c ≠ 'E' := by
      intro c hc
      have := fun h => hplain (List.any_eq_true.2 ⟨c, List.mem_append_right _ hc, h⟩)
      simpa [not_or, and_assoc] using this
    have htext := k.text_eq_whole hmarks
    refine ⟨htext, ?_⟩
    rw [htext] at h
    have hread : readInteger 10 (sign ++ k.whole.text) = .error fault := by
      rcases hr : readInteger 10 (sign ++ k.whole.text) with fault' | n
      · rw [hr] at h
        exact congrArg Except.error (Except.error.inj h)
      · rw [hr] at h
        cases h
    obtain ⟨n, hn⟩ : ∃ n, readInteger 10 (sign ++ k.whole.text) =
        if k.whole.text.length > digitLimit then .error (.tooLong k.whole.text.length)
        else .ok n := by
      rcases hsign with rfl | rfl
      · exact ⟨_, readInteger_unsigned k.whole.digit k.whole.ne_nil⟩
      · exact ⟨_, readInteger_negative k.whole.digit k.whole.ne_nil⟩
    rw [hn] at hread
    split at hread
    · rename_i hlong
      exact ⟨hlong, (Except.error.inj hread).symm⟩
    · cases hread

/-- Digits, with a sign or none, are no fraction. -/
theorem not_fraction {text : List Char} (h : ∀ c ∈ text, isDigit c = true ∨ c = '-') :
    ¬(text.any fun c => c = '.' || c = 'e' || c = 'E') = true := by
  have hmarks : isDigit '.' = false ∧ isDigit 'e' = false ∧ isDigit 'E' = false := by decide
  intro hany
  obtain ⟨c, hc, hmark⟩ := List.any_eq_true.1 hany
  have hdigit := h c hc
  simp only [Bool.or_eq_true, decide_eq_true_eq] at hmark
  rcases hmark with (rfl | rfl) | rfl <;> simp [hmarks] at hdigit

/-- A whole number with too many digits has none. -/
theorem number?_tooLong {φ : Type} (ds : SamScript.Digits) (h : digitLimit < ds.text.length) :
    (number? ds.text : Except Fault (Option (Value φ))) = .error (.tooLong ds.text.length) := by
  unfold number?
  rw [if_neg (not_fraction fun c hc => .inl (ds.digit c hc)),
    readInteger_unsigned ds.digit ds.ne_nil, if_pos h]
  rfl

/-- A word as it is written has its own value. -/
theorem number?_word {φ : Type} (n : Int64)
    (hlength : (Nat.toDigits 10 n.toInt.natAbs).length ≤ digitLimit) :
    (number? (toString n.toInt).toList : Except Fault (Option (Value φ))) = .ok (some (.int n)) := by
  have hdigits := isDigits_toDigits n.toInt.natAbs
  have hne : Nat.toDigits 10 n.toInt.natAbs ≠ [] := Nat.toDigits_ne_nil
  have hread : readInteger 10 (toString n.toInt).toList = .ok n.toInt := by
    rw [toList_toString]
    split
    · rw [readInteger_unsigned hdigits hne, if_neg (Nat.not_lt.2 hlength),
        Nat.ofDigitChars_ten_toDigits]
      exact congrArg Except.ok (by omega)
    · rw [readInteger_negative hdigits hne, if_neg (Nat.not_lt.2 hlength),
        Nat.ofDigitChars_ten_toDigits]
      exact congrArg Except.ok (by omega)
  have hplain : ∀ c ∈ (toString n.toInt).toList, isDigit c = true ∨ c = '-' := by
    rw [toList_toString]
    split
    · exact fun c hc => .inl (hdigits c hc)
    · exact List.forall_mem_cons.2 ⟨.inr rfl, fun c hc => .inl (hdigits c hc)⟩
  unfold number?
  rw [if_neg (not_fraction hplain), hread]
  show Except.ok (if _ then some (Value.int (Int64.ofInt n.toInt)) else none) = _
  rw [if_pos ⟨n.minValue_le_toInt, n.toInt_le⟩, Int64.ofInt_toInt]

end Literal

end SamScript
