/-
How deep JSON nests, told from its text. The reader counts brackets outside
of strings before it reads anything; for what the writer wrote, that count is
the depth of the value (`nesting_write`), so a limit on the text is a limit on
the value.
-/
import SamScript.Proofs.Json.Roundtrip

namespace SamScript.Json

-- ================================================================== depth

mutual

/-- How many arrays and objects lie one inside the other. -/
def depth : Json → Nat
  | .array items => depthItems items + 1
  | .object members => depthMembers members + 1
  | _ => 0

def depthItems : List Json → Nat
  | [] => 0
  | item :: rest => max (depth item) (depthItems rest)

def depthMembers : List (String × Json) → Nat
  | [] => 0
  | (_, value) :: rest => max (depth value) (depthMembers rest)

end

/-- Whether a text, met outside of strings, nests to a certain depth and
leaves nothing open. -/
def Nests (text : List Char) (deep : Nat) : Prop :=
  ∀ level greatest : Nat, level ≤ greatest → ∀ rest : List Char,
    nestingFrom level greatest .outside (text ++ rest) =
      nestingFrom level (max greatest (level + deep)) .outside rest

-- ============================================================== the parts

theorem nests_nil : Nests [] 0 := by
  intro level greatest h rest
  rw [List.nil_append, Nat.add_zero, Nat.max_eq_left h]

theorem Nests.append {text text' : List Char} {deep deep' : Nat} (h : Nests text deep)
    (h' : Nests text' deep') : Nests (text ++ text') (max deep deep') := by
  intro level greatest hle rest
  rw [List.append_assoc, h _ _ hle, h' _ _ (by omega)]
  congr 1
  omega

/-- A character that is neither a bracket nor a quote. -/
theorem Nests.cons {c : Char} {text : List Char} {deep : Nat}
    (hc : c ∉ ['"', '[', '\x7b', ']', '\x7d']) (h : Nests text deep) : Nests (c :: text) deep := by
  intro level greatest hle rest
  simp only [List.mem_cons, List.not_mem_nil, or_false, not_or] at hc
  rw [List.cons_append, nestingFrom]
  simp only [hc, or_self, if_false]
  exact h _ _ hle rest

theorem nests_of_forall {text : List Char} (h : ∀ c ∈ text, c ∉ ['"', '[', '\x7b', ']', '\x7d']) :
    Nests text 0 := by
  induction text with
  | nil => exact nests_nil
  | cons c text ih =>
    obtain ⟨hc, htext⟩ := List.forall_mem_cons.1 h
    exact (ih htext).cons hc

/-- Whether a text has no mark that counts can be computed. -/
theorem nests_of_all {text : List Char}
    (h : text.all fun c => c ∉ ['"', '[', '\x7b', ']', '\x7d']) : Nests text 0 :=
  nests_of_forall fun c hc => of_decide_eq_true (List.all_eq_true.1 h c hc)

/-- A text in brackets or braces. -/
theorem Nests.bracketed {text : List Char} {deep : Nat} (h : Nests text deep)
    {opening closing : Char} (hmarks : (opening, closing) ∈ [('[', ']'), ('\x7b', '\x7d')]) :
    Nests (opening :: (text ++ [closing])) (deep + 1) := by
  intro level greatest hle rest
  have hopen : ∀ more, nestingFrom level greatest .outside (opening :: more) =
      nestingFrom (level + 1) (max greatest (level + 1)) .outside more := by
    intro more
    simp only [List.mem_cons, Prod.mk.injEq, List.not_mem_nil, or_false] at hmarks
    rcases hmarks with ⟨rfl, rfl⟩ | ⟨rfl, rfl⟩ <;> rfl
  have hclose : ∀ great, nestingFrom (level + 1) great .outside (closing :: rest) =
      nestingFrom level great .outside rest := by
    intro great
    simp only [List.mem_cons, Prod.mk.injEq, List.not_mem_nil, or_false] at hmarks
    rcases hmarks with ⟨rfl, rfl⟩ | ⟨rfl, rfl⟩ <;> rfl
  rw [List.cons_append, hopen, List.append_assoc, h _ _ (Nat.le_max_right _ _), List.cons_append,
    List.nil_append, hclose]
  congr 1
  omega

-- ================================================================ strings

section

variable (level greatest : Nat) (rest : List Char)

/-- Inside a string only quotes and backslashes matter. -/
theorem nestingFrom_inside {c : Char} (hquote : c ≠ '"') (hslash : c ≠ '\\') :
    nestingFrom level greatest .inside (c :: rest) = nestingFrom level greatest .inside rest := by
  rw [nestingFrom, if_neg hslash, if_neg hquote]

theorem nestingFrom_unit {unit : Nat} (h : unit < 0x10000) :
    nestingFrom level greatest .inside (unitEscape unit ++ rest) =
      nestingFrom level greatest .inside rest := by
  have hdigit : ∀ d < 16, Nat.digitChar d ≠ '"' ∧ Nat.digitChar d ≠ '\\' := by decide
  have hfour : ∀ a < 16, ∀ more, nestingFrom level greatest .inside (Nat.digitChar a :: more) =
      nestingFrom level greatest .inside more :=
    fun a ha more => nestingFrom_inside level greatest more (hdigit a ha).1 (hdigit a ha).2
  rw [unitEscape_append, Text.hex_four h]
  show nestingFrom level greatest .inside (_ :: _ :: _ :: _ :: rest) = _
  rw [hfour _ (by omega), hfour _ (by omega), hfour _ (by omega), hfour _ (by omega)]

/-- However a character is written, it leaves the string open. -/
theorem nestingFrom_char (c : Char) :
    nestingFrom level greatest .inside (stringChar c ++ rest) =
      nestingFrom level greatest .inside rest := by
  rcases stringChar_cases c with ⟨letter, -, -, heq⟩ | ⟨hquote, hslash, -, heq⟩ |
    ⟨hcode, heq⟩ | ⟨hcode, heq⟩ <;> rw [heq]
  · rfl
  · exact nestingFrom_inside level greatest rest hquote hslash
  · exact nestingFrom_unit level greatest rest hcode
  · rw [List.append_assoc, nestingFrom_unit _ _ _ (high_lt c), nestingFrom_unit _ _ _ (by omega)]

end

theorem nests_quote (s : String) : Nests (quote s).toList 0 := by
  intro level greatest hle rest
  have hchars : ∀ text : List Char,
      nestingFrom level greatest .inside (text.flatMap stringChar ++ '"' :: rest) =
        nestingFrom level greatest .outside rest := by
    intro text
    induction text with
    | nil => rfl
    | cons c text ih =>
      rw [List.flatMap_cons, List.append_assoc, nestingFrom_char, ih]
  rw [quote_append, Nat.add_zero, Nat.max_eq_left hle]
  exact hchars s.toList

-- ================================================================= values

/-- Parts between commas. -/
theorem nests_commas {part : String} {parts : List String} {deep deep' : Nat}
    (hpart : Nests part.toList deep) (hparts : Nests (", ".intercalate parts).toList deep') :
    Nests (", ".intercalate (part :: parts)).toList (max deep deep') := by
  cases parts with
  | nil => simpa using hpart.append hparts
  | cons next parts =>
    rw [toList_commas_cons]
    exact hpart.append ((hparts.cons (by decide)).cons (by decide))

theorem nests_items {items : List Json} (h : ∀ j ∈ items, Nests (write j).toList j.depth) :
    Nests (", ".intercalate (writeItems items)).toList (depthItems items) := by
  induction items with
  | nil => exact nests_nil
  | cons item items ih =>
    obtain ⟨hitem, hitems⟩ := List.forall_mem_cons.1 h
    exact nests_commas hitem (ih hitems)

theorem nests_members {members : List (String × Json)}
    (h : ∀ m ∈ members, Nests (write m.2).toList m.2.depth) :
    Nests (", ".intercalate (writeMembers members)).toList (depthMembers members) := by
  induction members with
  | nil => exact nests_nil
  | cons m members ih =>
    obtain ⟨hm, hmembers⟩ := List.forall_mem_cons.1 h
    have hmember : Nests (quote m.1 ++ ": " ++ write m.2).toList m.2.depth := by
      have hcolon : Nests [':', ' '] 0 := nests_of_all (by decide)
      simpa using ((nests_quote m.1).append hcolon).append hm
    exact nests_commas hmember (ih hmembers)

/-- The brackets in what is written of a value nest as deep as the value. -/
theorem nests_write {j : Json} (h : Portable j) : Nests (write j).toList j.depth := by
  induction h with
  | null => exact nests_of_all (by decide)
  | bool b => cases b <;> exact nests_of_all (by decide)
  | @int n _ =>
    have hdigits : Nests (Nat.toDigits 10 n.natAbs) 0 := nests_of_forall fun c hc hmem => by
      have hdigit := Decimal.isDigits_toDigits _ c hc
      simp only [List.mem_cons, List.not_mem_nil, or_false] at hmem
      rcases hmem with rfl | rfl | rfl | rfl | rfl <;> exact absurd hdigit (by decide)
    rw [toList_write_int]
    split
    · exact hdigits
    · exact hdigits.cons (by decide)
  | string s =>
    have htext : write (.string s) = quote s := by simp only [write, writeLeaf]
    exact htext ▸ nests_quote s
  | array _ ih =>
    rw [toList_write_array]
    exact (nests_items ih).bracketed (by decide)
  | object _ _ ih =>
    rw [toList_write_object]
    exact (nests_members ih).bracketed (by decide)

/-- How deep a text nests is how deep the value lies that it was written of. -/
theorem nesting_write {j : Json} (h : Portable j) :
    nestingFrom 0 0 .outside (write j).toList = j.depth := by
  have hnests := nests_write h 0 0 (Nat.le_refl 0) []
  rw [List.append_nil] at hnests
  rw [hnests, nestingFrom]
  omega

/-- Reading gives back what was written, under any limit that it keeps to. -/
theorem readWithin_write {j : Json} (h : Portable j) {limit : Option Nat}
    (hlimit : ∀ n ∈ limit, j.depth ≤ n) : readWithin limit (write j).toList = .ok j := by
  cases limit with
  | none => exact read?_write h
  | some n =>
    rw [readWithin, nesting_write h, if_neg (Nat.not_lt.2 (hlimit n rfl))]
    exact read?_write h

end SamScript.Json
