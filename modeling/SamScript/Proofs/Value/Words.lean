/-
Whole numbers are words of 64 bits. `wrap` says which word a whole number becomes: the
low bits of its distance from the least word, counted from there again. It is the one
number in range that leaves the same remainder (`eq_wrap_iff`), so sums, differences and
products may be wrapped at every step or once at the end, and whatever holds of them
among whole numbers holds among words.

Remainders never have to be wrapped. They are taken of the magnitudes and get the sign
of the dividend, so they lie between zero and the dividend (`toInt_mod`), also where the
dividend is the least word, whose magnitude is no word.
-/
import Mathlib.Data.Int.Bitwise
import SamScript.Value.Operator

namespace SamScript

variable {φ : Type} [DecidableEq φ]

-- ================================================================= wrapping

namespace Word

/-- The least word. -/
def least : Int := -2 ^ 63

/-- The bits of a word. -/
def mask : Int := 2 ^ 64 - 1

/-- The word that a whole number becomes. -/
def wrap (n : Int) : Int :=
  Int.land (n - least) mask + least

/-- Under a mask of ones a number leaves its remainder. -/
theorem land_mask (n : Int) : Int.land n mask = n % 2 ^ 64 := by
  have hmask : mask = Int.ofNat (2 ^ 64 - 1) := rfl
  rw [hmask]
  cases n with
  | ofNat m =>
    show ((m &&& (2 ^ 64 - 1) : Nat) : Int) = _
    rw [Nat.and_two_pow_sub_one_eq_mod]
    rfl
  | negSucc m =>
    show ((Nat.ldiff (2 ^ 64 - 1) m : Nat) : Int) = _
    have hlow : m % 2 ^ 64 < 2 ^ 64 := Nat.mod_lt _ (by decide)
    have hldiff : Nat.ldiff (2 ^ 64 - 1) m = 2 ^ 64 - (m % 2 ^ 64 + 1) := by
      refine Nat.eq_of_testBit_eq fun i => ?_
      rw [Nat.testBit_ldiff, Nat.testBit_two_pow_sub_one, Nat.testBit_two_pow_sub_succ hlow,
        Nat.testBit_mod_two_pow]
      cases decide (i < 64) <;> simp
    rw [hldiff]
    omega

theorem wrap_eq (n : Int) : wrap n = (n - least) % 2 ^ 64 + least := by
  rw [wrap, land_mask]

/-- A number is wrapped to the one in range that differs from it by a multiple of the
number of words. -/
theorem eq_wrap_iff {n k : Int} :
    k = wrap n ↔ -2 ^ 63 ≤ k ∧ k ≤ 2 ^ 63 - 1 ∧ (2 ^ 64 : Int) ∣ n - k := by
  rw [wrap_eq, least]
  omega

theorem wrap_eq_bmod (n : Int) : wrap n = n.bmod (2 ^ 64) := by
  rw [wrap_eq, Int.bmod_def, least]
  split <;> omega

/-- The words of the machine are made by wrapping. -/
theorem toInt_ofInt (n : Int) : (Int64.ofInt n).toInt = wrap n := by
  rw [Int64.toInt_ofInt, wrap_eq_bmod]
  rfl

theorem dvd_sub_wrap (n : Int) : (2 ^ 64 : Int) ∣ n - wrap n :=
  (eq_wrap_iff.1 rfl).2.2

-- =============================================================== remainders

/-- A remainder of the magnitudes with the sign of the dividend. -/
def remainder (a b : Int) : Int :=
  if a < 0 then -(a.natAbs % b.natAbs : Nat) else (a.natAbs % b.natAbs : Nat)

theorem natAbs_remainder (a b : Int) : (remainder a b).natAbs = a.natAbs % b.natAbs := by
  unfold remainder
  split
  · rw [Int.natAbs_neg, Int.natAbs_natCast]
  · rw [Int.natAbs_natCast]

/-- What is left behind the remainder is divided without one. -/
theorem dvd_sub_remainder (a b : Int) : b ∣ a - remainder a b := by
  have hwhole : (a.natAbs : Int) = b.natAbs * (a.natAbs / b.natAbs : Nat) +
      (a.natAbs % b.natAbs : Nat) := by
    exact_mod_cast (Nat.div_add_mod a.natAbs b.natAbs).symm
  have hdvd : b ∣ b.natAbs * (a.natAbs / b.natAbs : Nat) :=
    Int.dvd_mul_of_dvd_left (Int.dvd_natAbs.2 (Int.dvd_refl b))
  unfold remainder
  split
  · have hsplit : a - -((a.natAbs % b.natAbs : Nat) : Int) =
        -(b.natAbs * (a.natAbs / b.natAbs : Nat)) := by
      omega
    rw [hsplit]
    exact Int.dvd_neg.2 hdvd
  · have hsplit : a - ((a.natAbs % b.natAbs : Nat) : Int) =
        b.natAbs * (a.natAbs / b.natAbs : Nat) := by
      omega
    rwa [hsplit]

theorem sign_remainder (a b : Int) : remainder a b = 0 ∨ (remainder a b).sign = a.sign := by
  rcases Nat.eq_zero_or_pos (a.natAbs % b.natAbs) with hzero | hpos
  · exact .inl (Int.natAbs_eq_zero.1 ((natAbs_remainder a b).trans hzero))
  · right
    unfold remainder
    split
    · rename_i ha
      rw [Int.sign_eq_neg_one_of_neg ha, Int.sign_eq_neg_one_of_neg (by omega)]
    · rename_i ha
      have hne : a ≠ 0 := by
        rintro rfl
        rw [Int.natAbs_zero, Nat.zero_mod] at hpos
        exact Nat.lt_irrefl 0 hpos
      rw [Int.sign_eq_one_of_pos (by omega : 0 < a), Int.sign_eq_one_of_pos (by omega)]

/-- There is one remainder that is smaller than the divisor and has no other sign than
the dividend. -/
theorem eq_remainder_iff {a b k : Int} (hb : b ≠ 0) :
    k = remainder a b ↔ b ∣ a - k ∧ k.natAbs < b.natAbs ∧ (k = 0 ∨ k.sign = a.sign) := by
  have hsmall : (remainder a b).natAbs < b.natAbs := by
    rw [natAbs_remainder]
    exact Nat.mod_lt _ (Int.natAbs_pos.2 hb)
  constructor
  · rintro rfl
    exact ⟨dvd_sub_remainder a b, hsmall, sign_remainder a b⟩
  · rintro ⟨hdvd, hlt, hsign⟩
    have hapart : b ∣ remainder a b - k := by
      have := Int.dvd_sub hdvd (dvd_sub_remainder a b)
      rwa [show a - k - (a - remainder a b) = remainder a b - k by omega] at this
    -- on one side of zero, numbers below the divisor are less than the divisor apart
    have hnear : (remainder a b - k).natAbs < b.natAbs := by
      have hsign' := sign_remainder a b
      rcases Int.lt_trichotomy a 0 with ha | rfl | ha
      · rw [Int.sign_eq_neg_one_of_neg ha, Int.sign_eq_neg_one_iff_neg] at hsign hsign'
        omega
      · rw [Int.sign_zero, Int.sign_eq_zero_iff_zero] at hsign hsign'
        omega
      · rw [Int.sign_eq_one_of_pos ha, Int.sign_eq_one_iff_pos] at hsign hsign'
        omega
    have := Int.eq_zero_of_dvd_of_natAbs_lt_natAbs hapart hnear
    omega

/-- Remainders of words are those of the numbers, and are not wrapped. -/
theorem toInt_mod {a b : Int64} (hb : b.toInt ≠ 0) :
    (a % b).toInt = remainder a.toInt b.toInt := by
  rw [Int64.toInt_mod, eq_remainder_iff hb, Int.natAbs_tmod, Int.sign_tmod]
  refine ⟨Int.dvd_self_sub_tmod, Nat.mod_lt _ (Int.natAbs_pos.2 hb), ?_⟩
  split
  · rename_i hdvd
    exact .inl (Int.tmod_eq_zero_of_dvd hdvd)
  · exact .inr rfl

end Word

-- ================================================================ operators

/-- A word among the values that operators may have. -/
def word (n : Int64) : Except OperatorFault (Value φ) :=
  .ok (.int n)

namespace Operator

/-- The value of an operator for operands that have been computed by others. -/
def between (op : Operator) (x y : Except OperatorFault (Value φ)) :
    Except OperatorFault (Value φ) := do
  op.apply (← x) (← y)

variable {a b c : Int64}

@[simp] theorem add_words : add.between (word a) (word b) = (word (a + b) : Except _ (Value φ)) :=
  rfl

@[simp] theorem subtract_words :
    subtract.between (word a) (word b) = (word (a - b) : Except _ (Value φ)) :=
  rfl

@[simp] theorem multiply_words :
    multiply.between (word a) (word b) = (word (a * b) : Except _ (Value φ)) :=
  rfl

/-- Whether an operator takes words to the word that an operation on whole numbers comes
to. -/
def Wraps (φ : Type) [DecidableEq φ] (op : Operator) (exact : Int → Int → Int) : Prop :=
  ∀ a b : Int64, ∃ c : Int64, op.between (word a) (word b) = (word c : Except _ (Value φ)) ∧
    c.toInt = Word.wrap (exact a.toInt b.toInt) ∧
    (2 ^ 64 : Int) ∣ exact a.toInt b.toInt - c.toInt

theorem wraps_of_eq {op : Operator} {exact : Int → Int → Int} {words : Int64 → Int64 → Int64}
    (hop : ∀ a b, op.between (word a) (word b) = (word (words a b) : Except _ (Value φ)))
    (hwords : ∀ a b, (words a b).toInt = (exact a.toInt b.toInt).bmod (2 ^ 64)) :
    op.Wraps φ exact := by
  intro a b
  have hwrap : (words a b).toInt = Word.wrap (exact a.toInt b.toInt) := by
    rw [Word.wrap_eq_bmod, hwords]
  exact ⟨words a b, hop a b, hwrap, hwrap ▸ Word.dvd_sub_wrap _⟩

/-- The laws of a commutative ring, of the operators on words. -/
structure WordRing (φ : Type) [DecidableEq φ] : Prop where
  add_assoc : ∀ a b c : Int64,
    add.between (add.between (word a) (word b)) (word c) =
      (add.between (word a) (add.between (word b) (word c)) : Except _ (Value φ))
  add_comm : ∀ a b : Int64,
    add.between (word a) (word b) = (add.between (word b) (word a) : Except _ (Value φ))
  add_zero : ∀ a : Int64, add.between (word a) (word 0) = (word a : Except _ (Value φ))
  add_negative : ∀ a : Int64,
    add.between (word a) (subtract.between (word 0) (word a)) = (word 0 : Except _ (Value φ))
  subtract_eq : ∀ a b : Int64,
    subtract.between (word a) (word b) =
      (add.between (word a) (subtract.between (word 0) (word b)) : Except _ (Value φ))
  multiply_assoc : ∀ a b c : Int64,
    multiply.between (multiply.between (word a) (word b)) (word c) =
      (multiply.between (word a) (multiply.between (word b) (word c)) : Except _ (Value φ))
  multiply_comm : ∀ a b : Int64,
    multiply.between (word a) (word b) =
      (multiply.between (word b) (word a) : Except _ (Value φ))
  multiply_one : ∀ a : Int64, multiply.between (word a) (word 1) = (word a : Except _ (Value φ))
  multiply_add : ∀ a b c : Int64,
    multiply.between (word a) (add.between (word b) (word c)) =
      (add.between (multiply.between (word a) (word b)) (multiply.between (word a) (word c)) :
        Except _ (Value φ))

theorem wordRing (φ : Type) [DecidableEq φ] : WordRing φ where
  add_assoc a b c := by simp [Int64.add_assoc]
  add_comm a b := by simp [Int64.add_comm]
  add_zero a := by simp
  add_negative a := by simp [Int64.add_right_neg]
  subtract_eq a b := by simp [Int64.sub_eq_add_neg]
  multiply_assoc a b c := by simp [Int64.mul_assoc]
  multiply_comm a b := by simp [Int64.mul_comm]
  multiply_one a := by simp
  multiply_add a b c := by simp [Int64.mul_add]

theorem remainder_words (hb : b ≠ 0) :
    remainder.between (word a) (word b) = (word (a % b) : Except _ (Value φ)) := by
  show Except.ok (if b = 0 then Value.undefined else .int (a % b)) = _
  rw [if_neg hb]
  rfl

end Operator

/-- Arithmetic on whole numbers of 64 bits. Wrapping takes a whole number to the one
word that differs from it by a multiple of their number. Sums, differences and products
are those of the whole numbers, wrapped, and obey the laws of a commutative ring. The
remainder of a division by anything but zero is the one whole number that leaves a
multiple of the divisor, is smaller than it and has no other sign than the dividend; it
is never wrapped. A remainder of a division by zero is undefined. -/
theorem words_wrap_and_remainders_are_exact (φ : Type) [DecidableEq φ] :
    (∀ n k : Int, k = Word.wrap n ↔ -2 ^ 63 ≤ k ∧ k ≤ 2 ^ 63 - 1 ∧ (2 ^ 64 : Int) ∣ n - k) ∧
    (∀ n : Int, (Int64.ofInt n).toInt = Word.wrap n) ∧
    Operator.add.Wraps φ (· + ·) ∧ Operator.subtract.Wraps φ (· - ·) ∧
    Operator.multiply.Wraps φ (· * ·) ∧ Operator.WordRing φ ∧
    (∀ a b : Int64, b ≠ 0 → ∃ r : Int64,
      Operator.remainder.between (word a) (word b) = (word r : Except _ (Value φ)) ∧
      r.toInt = Word.remainder a.toInt b.toInt ∧
      ∀ k : Int, k = r.toInt ↔ b.toInt ∣ a.toInt - k ∧ k.natAbs < b.toInt.natAbs ∧
        (k = 0 ∨ k.sign = a.toInt.sign)) ∧
    ∀ a : Int64, Operator.remainder.between (word a) (word 0) =
      (.ok .undefined : Except _ (Value φ)) := by
  refine ⟨fun n k => Word.eq_wrap_iff, Word.toInt_ofInt,
    Operator.wraps_of_eq (fun a b => Operator.add_words) Int64.toInt_add,
    Operator.wraps_of_eq (fun a b => Operator.subtract_words) Int64.toInt_sub,
    Operator.wraps_of_eq (fun a b => Operator.multiply_words) Int64.toInt_mul,
    Operator.wordRing φ, fun a b hb => ?_, fun a => rfl⟩
  have hne : b.toInt ≠ 0 := fun he => hb (Int64.toInt_inj.1 he)
  have hexact := Word.toInt_mod (a := a) hne
  refine ⟨a % b, Operator.remainder_words hb, hexact, fun k => ?_⟩
  rw [hexact]
  exact Word.eq_remainder_iff hne

/-- The least word leaves nothing when it is divided by minus one, though the quotient is
no word, and minus two when it is divided by three; the least word as a divisor is as
good as any. -/
theorem words_wrap_and_remainders_are_exact_least :
    (∃ r : Int64, Operator.remainder.between (word Int64.minValue) (word (-1)) =
        (word r : Except _ Value) ∧ r.toInt = 0) ∧
      (∃ r : Int64, Operator.remainder.between (word Int64.minValue) (word 3) =
        (word r : Except _ Value) ∧ r.toInt = -2) ∧
      ∃ r : Int64, Operator.remainder.between (word (-7)) (word Int64.minValue) =
        (word r : Except _ Value) ∧ r.toInt = -7 := by
  obtain ⟨-, -, -, -, -, -, hremainder, -⟩ := words_wrap_and_remainders_are_exact FunctionRef
  obtain ⟨r, hr, hexact, -⟩ := hremainder Int64.minValue (-1) (by decide)
  obtain ⟨s, hs, hexact', -⟩ := hremainder Int64.minValue 3 (by decide)
  obtain ⟨t, ht, hexact'', -⟩ := hremainder (-7) Int64.minValue (by decide)
  exact ⟨⟨r, hr, hexact.trans (by decide)⟩, ⟨s, hs, hexact'.trans (by decide)⟩,
    t, ht, hexact''.trans (by decide)⟩

end SamScript
