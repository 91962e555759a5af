/-
Numbers that are written in ASCII digits of base sixteen, in letters of either case.
Nothing that the number reader is loose about can come up in them: none of their
characters is a blank, a sign or an underscore, and no letter behind a zero tells a base.
So what is read is the number that they spell (`readInteger_hexadecimal`).
-/
import SamScript.Proofs.Decimal.Digits

namespace SamScript.Decimal

/-- The value of a digit of base sixteen. -/
def hexValue (c : Char) : Nat :=
  "0123456789abcdef".toList.idxOf c.toLower

/-- The number that digits of base sixteen spell. -/
def hexNumber (ds : List Char) : Nat :=
  ds.foldl (fun n c => 16 * n + hexValue c) 0

/-- The digits of base sixteen, one by one. -/
def hexDigits : List Char :=
  "0123456789abcdefABCDEF".toList

theorem mem_hexDigits {c : Char} (h : isHexDigit c = true) : c ∈ hexDigits := by
  have hcode : c = Char.ofNat c.toNat := c.ofNat_toNat.symm
  have hrange : c.toNat ∈ List.range' 0x30 10 ++ (List.range' 0x61 6 ++ List.range' 0x41 6) := by
    simp only [isHexDigit, isDigit, Bool.or_eq_true, Bool.and_eq_true, decide_eq_true_eq,
      Char.le_def, UInt32.le_iff_toNat_le] at h
    simp only [List.mem_append, List.mem_range'_1]
    change ((0x30 ≤ c.toNat ∧ c.toNat ≤ 0x39) ∨ (0x61 ≤ c.toNat ∧ c.toNat ≤ 0x66)) ∨
      (0x41 ≤ c.toNat ∧ c.toNat ≤ 0x46) at h
    omega
  have hall : ∀ n ∈ List.range' 0x30 10 ++ (List.range' 0x61 6 ++ List.range' 0x41 6),
      Char.ofNat n ∈ hexDigits := by
    decide
  rw [hcode]
  exact hall _ hrange

theorem digitValue?_hexDigit {c : Char} (h : isHexDigit c = true) :
    digitValue? 16 c = some (hexValue c) := by
  have hall : (hexDigits.all fun d => digitValue? 16 d = some (hexValue d)) = true := by decide
  exact of_decide_eq_true (List.all_eq_true.1 hall c (mem_hexDigits h))

/-- What a digit of base sixteen is not. -/
theorem hexDigit_apart {c : Char} (h : isHexDigit c = true) :
    isSpace c = false ∧ c ≠ '-' ∧ c ≠ '+' ∧ c.toLower ≠ 'x' := by
  have hall : (hexDigits.all fun d => isSpace d = false ∧ d ≠ '-' ∧ d ≠ '+' ∧ d.toLower ≠ 'x') =
      true := by
    decide
  exact of_decide_eq_true (List.all_eq_true.1 hall c (mem_hexDigits h))

variable {ds : List Char}

theorem takeSign_hexadecimal (hds : ∀ c ∈ ds, isHexDigit c = true) : takeSign ds = (false, ds) := by
  cases ds with
  | nil => rfl
  | cons c ds =>
    obtain ⟨-, hminus, hplus, -⟩ := hexDigit_apart (hds c List.mem_cons_self)
    rw [takeSign]
    · exact fun _ he => hminus (List.cons.inj he).1
    · exact fun _ he => hplus (List.cons.inj he).1

theorem dropBase_hexadecimal (hds : ∀ c ∈ ds, isHexDigit c = true) : dropBase 16 ds = ds := by
  unfold dropBase
  split
  · rename_i letter rest
    have hletter := hds letter (List.mem_cons_of_mem _ List.mem_cons_self)
    rw [if_neg]
    exact fun he => (hexDigit_apart hletter).2.2.2 (Option.some.inj he)
  · rfl

/-- Reading digits of base sixteen gives the number that they spell. -/
theorem readInteger_hexadecimal (hds : ∀ c ∈ ds, isHexDigit c = true) (hne : ds ≠ []) :
    readInteger 16 ds = .ok (hexNumber ds : Int) := by
  have htake : takeDigits 16 false ds = (ds.map hexValue, []) := by
    simpa using takeDigits_run (fun c hc => digitValue?_hexDigit (hds c hc)) (stops_nil 16) false
  have hnumber : ofDigits 16 (ds.map hexValue) = hexNumber ds := by
    rw [ofDigits, hexNumber, List.foldl_map]
    congr 1
    funext n c
    rw [Nat.mul_comm]
  unfold readInteger
  rw [trim_eq_self fun c hc => (hexDigit_apart (hds c hc)).1, takeSign_hexadecimal hds]
  dsimp only
  rw [dropBase_hexadecimal hds, htake]
  simp [hnumber, hne]

end SamScript.Decimal
