/-
Reading undoes writing. `readChar` takes back one written character and
leaves what follows it, so `decode?` takes back any written text
(`decode?_encode`). An offset is a boundary of a text if some beginning of
the text is that wide; what lies between two boundaries is a written text
again, and so can be read (`Boundary.decode?`).
-/
import SamScript.Text.Utf8
import SamScript.Tree.Basic

namespace SamScript.Utf8

-- ======================================================= one character

/-- What a byte leads, by its value. -/
theorem lead_ofNat {n : Nat} (h : n < 256) :
    lead (.ofNat n) =
      if n < 0x80 then some (n, [])
      else if n < 0xC2 then none
      else if n < 0xE0 then some (n % 32, [(0x80, 0xBF)])
      else if n = 0xE0 then some (0, [(0xA0, 0xBF), (0x80, 0xBF)])
      else if n = 0xED then some (13, [(0x80, 0x9F), (0x80, 0xBF)])
      else if n < 0xF0 then some (n % 16, [(0x80, 0xBF), (0x80, 0xBF)])
      else if n = 0xF0 then some (0, [(0x90, 0xBF), (0x80, 0xBF), (0x80, 0xBF)])
      else if n < 0xF4 then some (n % 8, [(0x80, 0xBF), (0x80, 0xBF), (0x80, 0xBF)])
      else if n = 0xF4 then some (4, [(0x80, 0x8F), (0x80, 0xBF), (0x80, 0xBF)])
      else none := by
  have hn : (UInt8.ofNat n).toNat = n := UInt8.toNat_ofNat_of_lt' h
  simp only [lead, UInt8.lt_iff_toNat_lt, ← UInt8.toNat_inj, hn, UInt8.reduceToNat]

/-- A byte in its range is read. -/
theorem follow_ofNat {lo hi : UInt8} {n : Nat} (more : List (UInt8 × UInt8)) (code seen : Nat)
    (rest : List UInt8) (h : n < 256) (hlo : lo.toNat ≤ n) (hhi : n ≤ hi.toNat) :
    follow ((lo, hi) :: more) code seen (.ofNat n :: rest)
      = follow more (code * 64 + n % 64) (seen + 1) rest := by
  have hn : (UInt8.ofNat n).toNat = n := UInt8.toNat_ofNat_of_lt' h
  have hin : lo ≤ UInt8.ofNat n ∧ UInt8.ofNat n ≤ hi := by
    simp only [UInt8.le_iff_toNat_le, hn]
    exact ⟨hlo, hhi⟩
  rw [follow, if_pos hin, hn]

/-- A character is read if its first byte leads what follows. -/
theorem readChar_of_follow {b : UInt8} {bytes rest : List UInt8} {code n : Nat}
    {ranges : List (UInt8 × UInt8)} (hlead : lead b = some (code, ranges))
    (hfollow : follow ranges code 1 bytes = .ok (n, rest)) :
    readChar b bytes = .ok (Char.ofNat n, rest) := by
  rw [readChar, hlead]
  dsimp only
  rw [hfollow]
  rfl

/-- A written character is read back, whatever follows it. -/
theorem readChar_encodeChar (c : Char) :
    ∃ b bytes, String.utf8EncodeChar c = b :: bytes ∧
      ∀ rest, readChar b (bytes ++ rest) = .ok (c, rest) := by
  have hvalid : c.val.toNat < 0xD800 ∨ 0xDFFF < c.val.toNat ∧ c.val.toNat < 0x110000 := c.valid
  have hcode : Char.ofNat c.val.toNat = c := Char.ofNat_toNat c
  unfold String.utf8EncodeChar
  generalize c.val.toNat = v at hvalid hcode
  subst hcode
  dsimp only
  split
  · -- one byte
    have hlead := lead_ofNat (n := v) (by omega)
    rw [if_pos (by omega)] at hlead
    exact ⟨_, _, rfl, fun rest => readChar_of_follow hlead rfl⟩
  · split
    · -- two bytes
      refine ⟨_, _, rfl, fun rest => ?_⟩
      have hlead := lead_ofNat (n := v / 64 % 0x20 + 0xC0) (by omega)
      rw [if_neg (by omega), if_neg (by omega), if_pos (by omega),
        show (v / 64 % 0x20 + 0xC0) % 32 = v / 64 by omega] at hlead
      refine readChar_of_follow hlead ?_
      rw [List.cons_append, follow_ofNat _ _ _ _ (by omega) (by simp) (by simp; omega)]
      refine congrArg (fun n => Except.ok (n, rest)) ?_
      omega
    · split
      · -- three bytes: the second lies in a narrower range after 0xE0 and 0xED
        refine ⟨_, _, rfl, fun rest => ?_⟩
        have htail (lo hi : UInt8) (hlo : lo.toNat ≤ v / 64 % 0x40 + 0x80)
            (hhi : v / 64 % 0x40 + 0x80 ≤ hi.toNat) :
            follow [(lo, hi), (0x80, 0xBF)] (v / 4096) 1
              (.ofNat (v / 64 % 0x40 + 0x80) :: .ofNat (v % 0x40 + 0x80) :: rest)
            = .ok (v, rest) := by
          rw [follow_ofNat _ _ _ _ (by omega) hlo hhi,
            follow_ofNat _ _ _ _ (by omega) (by simp) (by simp; omega), follow]
          refine congrArg (fun n => Except.ok (n, rest)) ?_
          omega
        have hlead := lead_ofNat (n := v / 4096 % 0x10 + 0xE0) (by omega)
        rw [if_neg (by omega), if_neg (by omega), if_neg (by omega)] at hlead
        by_cases h₀ : v / 4096 = 0
        · rw [if_pos (by omega), ← h₀] at hlead
          exact readChar_of_follow hlead (htail _ _ (by simp; omega) (by simp; omega))
        · rw [if_neg (by omega)] at hlead
          by_cases h₁ : v / 4096 = 13
          · rw [if_pos (by omega), ← h₁] at hlead
            exact readChar_of_follow hlead (htail _ _ (by simp) (by simp; omega))
          · rw [if_neg (by omega), if_pos (by omega),
              show (v / 4096 % 0x10 + 0xE0) % 16 = v / 4096 by omega] at hlead
            exact readChar_of_follow hlead (htail _ _ (by simp) (by simp; omega))
      · -- four bytes: the second lies in a narrower range after 0xF0 and 0xF4
        refine ⟨_, _, rfl, fun rest => ?_⟩
        have htail (lo hi : UInt8) (hlo : lo.toNat ≤ v / 4096 % 0x40 + 0x80)
            (hhi : v / 4096 % 0x40 + 0x80 ≤ hi.toNat) :
            follow [(lo, hi), (0x80, 0xBF), (0x80, 0xBF)] (v / 262144) 1
              (.ofNat (v / 4096 % 0x40 + 0x80) :: .ofNat (v / 64 % 0x40 + 0x80)
                :: .ofNat (v % 0x40 + 0x80) :: rest)
            = .ok (v, rest) := by
          rw [follow_ofNat _ _ _ _ (by omega) hlo hhi,
            follow_ofNat _ _ _ _ (by omega) (by simp) (by simp; omega),
            follow_ofNat _ _ _ _ (by omega) (by simp) (by simp; omega), follow]
          refine congrArg (fun n => Except.ok (n, rest)) ?_
          omega
        have hlead := lead_ofNat (n := v / 262144 % 8 + 0xF0) (by omega)
        rw [if_neg (by omega), if_neg (by omega), if_neg (by omega), if_neg (by omega),
          if_neg (by omega), if_neg (by omega)] at hlead
        by_cases h₀ : v / 262144 = 0
        · rw [if_pos (by omega), ← h₀] at hlead
          exact readChar_of_follow hlead (htail _ _ (by simp; omega) (by simp; omega))
        · rw [if_neg (by omega)] at hlead
          by_cases h₁ : v / 262144 = 4
          · rw [if_neg (by omega), if_pos (by omega), ← h₁] at hlead
            exact readChar_of_follow hlead (htail _ _ (by simp) (by simp; omega))
          · rw [if_pos (by omega), show (v / 262144 % 8 + 0xF0) % 8 = v / 262144 by omega] at hlead
            exact readChar_of_follow hlead (htail _ _ (by simp) (by simp; omega))

-- ============================================================ whole texts

/-- A written text is read back. -/
theorem decodeFrom_encode (position : Nat) (text : List Char) :
    decodeFrom position (encode text) = .ok text := by
  induction text generalizing position with
  | nil => rw [show encode [] = [] from rfl, decodeFrom]
  | cons c rest ih =>
    obtain ⟨b, bytes, hc, hread⟩ := readChar_encodeChar c
    have hcons : encode (c :: rest) = b :: (bytes ++ encode rest) := by
      rw [encode, List.flatMap_cons, hc]
      rfl
    rw [hcons, decodeFrom]
    split
    · rename_i flaw h
      rw [hread] at h
      cases h
    · rename_i d left h
      rw [hread] at h
      cases h
      rw [ih]
      rfl

theorem decode?_encode (text : List Char) : decode? (encode text) = .ok text :=
  decodeFrom_encode 0 text

/-- Nor is anything replaced where it is read with replacements. -/
theorem decodeLossy_encode (text : List Char) : decodeLossy (encode text) = text := by
  induction text with
  | nil => rw [show encode [] = [] from rfl, decodeLossy]
  | cons c rest ih =>
    obtain ⟨b, bytes, hc, hread⟩ := readChar_encodeChar c
    have hcons : encode (c :: rest) = b :: (bytes ++ encode rest) := by
      rw [encode, List.flatMap_cons, hc]
      rfl
    rw [hcons, decodeLossy]
    split
    · rename_i flaw h
      rw [hread] at h
      cases h
    · rename_i d left h
      rw [hread] at h
      cases h
      rw [ih]

/-- Texts that are written alike are the same. -/
theorem eq_of_encode {a b : List Char} (h : encode a = encode b) : a = b := by
  have := decode?_encode a
  rw [h, decode?_encode] at this
  exact (Except.ok.inj this).symm

theorem width_append (a b : List Char) : width (a ++ b) = width a + width b := by
  induction a with
  | nil => simp [width]
  | cons c rest ih =>
    rw [List.cons_append, width, width, ih, Nat.add_assoc]

theorem width_pos {text : List Char} (h : text ≠ []) : 0 < width text := by
  cases text with
  | nil => exact absurd rfl h
  | cons c rest =>
    have := c.utf8Size_pos
    rw [width]
    omega

/-- Of two beginnings of a text the narrower one comes first. -/
theorem append_of_width_le {a b c d : List Char} (h : a ++ b = c ++ d)
    (hw : width a ≤ width c) : ∃ m, c = a ++ m ∧ b = m ++ d := by
  rcases List.append_eq_append_iff.1 h with ⟨m, hc, hb⟩ | ⟨m, rfl, hd⟩
  · exact ⟨m, hc, hb⟩
  · rw [width_append] at hw
    cases m with
    | nil => exact ⟨[], by rw [List.append_nil, List.append_nil], hd.symm⟩
    | cons x rest =>
      have := width_pos (List.cons_ne_nil x rest)
      omega

/-- A beginning of a text is known by its width. -/
theorem eq_of_width {a b c d : List Char} (h : a ++ b = c ++ d) (hw : width a = width c) :
    a = c := by
  obtain ⟨m, rfl, -⟩ := append_of_width_le h (Nat.le_of_eq hw)
  rw [width_append] at hw
  cases m with
  | nil => exact (List.append_nil a).symm
  | cons x rest =>
    have := width_pos (List.cons_ne_nil x rest)
    omega

-- ============================================================ boundaries

/-- The bytes of a part of a text, from where they begin to where they end. -/
theorem slice_encode (a b c : List Char) :
    slice (encode (a ++ b ++ c)) (width a) (width a + width b) = encode b := by
  rw [slice, encode_append, encode_append, ← length_encode, ← length_encode, List.append_assoc,
    List.drop_left, Nat.add_sub_cancel_left, List.take_left]

/-- Whether an offset lies between two characters of a text, or at an end. -/
def Boundary (text : List Char) (offset : Nat) : Prop :=
  ∃ a b, a ++ b = text ∧ width a = offset

/-- What lies between two boundaries is a text. -/
theorem Boundary.slice {text : List Char} {start stop : Nat} (hstart : Boundary text start)
    (hstop : Boundary text stop) :
    ∃ part, SamScript.slice (encode text) start stop = encode part := by
  obtain ⟨a, b, rfl, rfl⟩ := hstart
  obtain ⟨c, d, hcd, rfl⟩ := hstop
  rcases List.append_eq_append_iff.1 hcd with ⟨m, rfl, rfl⟩ | ⟨m, rfl, rfl⟩
  · -- the end lies before the start
    refine ⟨[], ?_⟩
    rw [SamScript.slice, width_append, show width c - (width c + width m) = 0 by omega]
    rfl
  · refine ⟨m, ?_⟩
    rw [width_append, ← List.append_assoc]
    exact slice_encode a m d

/-- What lies between two boundaries can be read. -/
theorem Boundary.decode? {text : List Char} {start stop : Nat} (hstart : Boundary text start)
    (hstop : Boundary text stop) :
    ∃ part, Utf8.decode? (SamScript.slice (encode text) start stop) = .ok part := by
  obtain ⟨part, hpart⟩ := hstart.slice hstop
  exact ⟨part, hpart ▸ decode?_encode part⟩

end SamScript.Utf8
