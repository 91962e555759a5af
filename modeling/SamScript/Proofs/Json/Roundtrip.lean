/-
JSON, written in one line and read back. What holds neither fractions, nor
whole numbers with too many digits, nor a name twice in one object comes back
as it was (`read?_write`): nothing else that the writer can write is lost.

A value is followed by a comma, a bracket, a brace or nothing, and that is
what the reader of a number has to see to know that the number is over. So
`ReadsBack` speaks of a value in front of any such text; a list of values is
then read back item by item, and nesting is one induction over the value.
-/
import SamScript.Proofs.Json.Strings

namespace SamScript

-- ================================================================ objects

/-- A new name comes last. -/
theorem Bindings.insert_of_not_mem {α : Type} {name : String} {b : Bindings α} (value : α)
    (h : name ∉ b.names) : b.insert name value = b ++ [(name, value)] := by
  induction b with
  | nil => rfl
  | cons p rest ih =>
    obtain ⟨key, old⟩ := p
    simp only [names, List.map_cons, List.mem_cons, not_or] at h
    rw [insert, if_neg (Ne.symm h.1), ih h.2, List.cons_append]

namespace Json

open Decimal (IsDigits isDigit)

/-- What JSON can hold without loss, at every depth. -/
inductive Portable : Json → Prop where
  | null : Portable .null
  | bool (b : Bool) : Portable (.bool b)
  | int {n : Int} : (Nat.toDigits 10 n.natAbs).length ≤ Decimal.digitLimit → Portable (.int n)
  | string (s : String) : Portable (.string s)
  | array {items : List Json} : (∀ j ∈ items, Portable j) → Portable (.array items)
  | object {members : List (String × Json)} : (Bindings.names members).Nodup →
      (∀ m ∈ members, Portable m.2) → Portable (.object members)

/-- Whether a text may stand behind a value. -/
def Behind (rest : List Char) : Prop :=
  ∀ c ∈ rest.head?, c = ',' ∨ c = ']' ∨ c = '\x7d'

theorem behind_nil : Behind [] :=
  fun _ h => nomatch h

theorem behind_cons {c : Char} (h : c = ',' ∨ c = ']' ∨ c = '\x7d') (rest : List Char) :
    Behind (c :: rest) := by
  rintro _ ⟨⟩
  exact h

/-- Whether a value is read back from what it is written as, whatever stands
behind it. -/
structure ReadsBack (j : Json) : Prop where
  /-- It begins neither with a blank nor as the end of an array. -/
  opens : ∃ c cs, (write j).toList = c :: cs ∧ isBlank c = false ∧ c ≠ ']'
  reads : ∀ {rest : List Char}, Behind rest → Gives (readValue ((write j).toList ++ rest)) j rest

-- ================================================================ pieces

theorem skipBlank_cons {c : Char} (h : isBlank c = false) (cs : List Char) :
    skipBlank (c :: cs) = c :: cs := by
  rw [skipBlank, List.dropWhile_cons_of_neg (by simp [h])]

theorem skipBlank_space (cs : List Char) : skipBlank (' ' :: cs) = skipBlank cs :=
  List.dropWhile_cons_of_pos rfl

theorem after?_self (c : Char) (rest : List Char) :
    after? c (c :: rest) = some ⟨rest, Nat.lt_succ_self _⟩ :=
  if_pos rfl

theorem after?_ne {c d : Char} (h : d ≠ c) (rest : List Char) : after? c (d :: rest) = none :=
  if_neg h

theorem readWord?_none {cs : List Char} (h : word? cs = none) : readWord? cs = none := by
  unfold readWord?
  split
  · rename_i heq
    rw [h] at heq
    cases heq
  · rfl

/-- A word that stands for a value is read. -/
theorem readValue_word {cs rest : List Char} {value : Json} (h : word? cs = some (value, rest)) :
    Gives (readValue cs) value rest := by
  rw [readValue.eq_def, readWord?]
  split
  · rename_i hword
    split at hword
    · rename_i heq
      rw [h] at heq
      cases heq
      cases hword
      rfl
    · cases hword
  · rename_i hword
    split at hword
    · cases hword
    · rename_i heq
      rw [h] at heq
      cases heq

-- ================================================================ numbers

/-- Behind a number nothing goes on with it. -/
theorem Behind.stops {rest : List Char} (h : Behind rest) :
    rest.takeWhile isDigit = [] ∧ rest.dropWhile isDigit = rest ∧
      Decimal.takeFraction rest = ([], rest) ∧ takeExponent rest = ([], rest) := by
  cases rest with
  | nil => exact ⟨rfl, rfl, rfl, rfl⟩
  | cons c rest =>
    rcases h c rfl with rfl | rfl | rfl <;>
      exact ⟨rfl, rfl, rfl, by simp [takeExponent]⟩

/-- A number is its digits, if it has no leading zero. -/
theorem readNumber_digits {sign ds rest : List Char} {value : Json} (hds : IsDigits ds)
    (hne : ds ≠ []) (hzero : ds.head? = some '0' → ds = ['0']) (hrest : Behind rest)
    (hvalue : numberValue sign ds [] [] = .ok value) :
    Gives (readNumber sign (ds ++ rest)) value rest := by
  obtain ⟨htake, hdrop, hfraction, hexponent⟩ := hrest.stops
  cases ds with
  | nil => exact absurd rfl hne
  | cons d ds =>
    obtain ⟨hd, hds⟩ := List.forall_mem_cons.1 hds
    have hwhole : (ds ++ rest).takeWhile isDigit = ds := by
      rw [List.takeWhile_append_of_pos hds, htake, List.append_nil]
    have htail : (ds ++ rest).dropWhile isDigit = rest := by
      rw [List.dropWhile_append_of_pos hds, hdrop]
    by_cases h : d = '0'
    · subst h
      obtain rfl : ds = [] := (List.cons.inj (hzero rfl)).2
      simp [Gives, readNumber, hd, hfraction, hexponent, hvalue, Except.map, Reading.pair]
    · simp [Gives, readNumber, hd, h, hwhole, htail, hfraction, hexponent, hvalue, Except.map,
        Reading.pair]

theorem numberValue_digits {ds : List Char} (hds : IsDigits ds) (hne : ds ≠ [])
    (hlength : ds.length ≤ Decimal.digitLimit) :
    numberValue [] ds [] [] = .ok (.int (Nat.ofDigitChars 10 ds 0)) := by
  simp [numberValue, Decimal.readInteger_unsigned hds hne, Nat.not_lt.2 hlength]

theorem numberValue_negative {ds : List Char} (hds : IsDigits ds) (hne : ds ≠ [])
    (hlength : ds.length ≤ Decimal.digitLimit) :
    numberValue ['-'] ds [] [] = .ok (.int (-(Nat.ofDigitChars 10 ds 0 : Int))) := by
  simp [numberValue, Decimal.readInteger_negative hds hne, Nat.not_lt.2 hlength]

theorem isBlank_digit {d : Char} (h : isDigit d = true) : isBlank d = false := by
  rw [Bool.eq_false_iff]
  intro hblank
  simp only [isBlank, Bool.or_eq_true, decide_eq_true_eq] at hblank
  rcases hblank with ((rfl | rfl) | rfl) | rfl <;> exact absurd h (by decide)

theorem word?_digit {d : Char} (h : isDigit d = true) (cs : List Char) : word? (d :: cs) = none := by
  unfold word?
  split <;> first | rfl | (rename_i heq; cases heq; exact absurd h (by decide))

theorem word?_negative {d : Char} (h : isDigit d = true) (cs : List Char) :
    word? ('-' :: d :: cs) = none := by
  unfold word?
  split <;> first | rfl | (rename_i heq; cases heq <;> exact absurd h (by decide))

theorem readValue_number {cs rest : List Char} {value : Json}
    (hhead : ∃ d more, cs = d :: more ∧ isDigit d = true)
    (hnumber : Gives (readNumber [] cs) value rest) : Gives (readValue cs) value rest := by
  obtain ⟨d, more, rfl, hd⟩ := hhead
  have hne : ∀ {c : Char} {more'}, isDigit c = false → d :: more = c :: more' → False := by
    intro c more' hc heq
    cases heq
    rw [hd] at hc
    cases hc
  rw [readValue.eq_5 _ (fun _ => hne rfl) (fun _ => hne rfl) (fun _ => hne rfl) (fun _ => hne rfl),
    readWord?_none (word?_digit hd more)]
  exact hnumber

theorem readValue_negative {cs rest : List Char} {value : Json}
    (hhead : ∃ d more, cs = d :: more ∧ isDigit d = true)
    (hnumber : Gives (readNumber ['-'] cs) value rest) : Gives (readValue ('-' :: cs)) value rest := by
  obtain ⟨d, more, rfl, hd⟩ := hhead
  obtain ⟨_, hread⟩ := hnumber.exists
  rw [readValue.eq_2, readWord?_none (word?_negative hd more), hread]
  rfl

/-- The JSON of a whole number is the number. -/
theorem toList_write_int (n : Int) :
    (write (.int n)).toList =
      if 0 ≤ n then Nat.toDigits 10 n.natAbs else '-' :: Nat.toDigits 10 n.natAbs :=
  Decimal.toList_toString n

/-- A whole number in front of what may stand behind it. -/
theorem readsBack_int {n : Int} (h : (Nat.toDigits 10 n.natAbs).length ≤ Decimal.digitLimit) :
    ReadsBack (.int n) := by
  have htext := toList_write_int n
  have hvalue : Nat.ofDigitChars 10 (Nat.toDigits 10 n.natAbs) 0 = n.natAbs :=
    Nat.ofDigitChars_ten_toDigits
  have hds := Decimal.isDigits_toDigits n.natAbs
  have hzero : (Nat.toDigits 10 n.natAbs).head? = some '0' → Nat.toDigits 10 n.natAbs = ['0'] := by
    intro hhead
    by_cases h0 : n.natAbs = 0
    · rw [h0, Nat.toDigits_zero]
    · exact absurd hhead (Decimal.head?_toDigits h0)
  have hne : Nat.toDigits 10 n.natAbs ≠ [] := Nat.toDigits_ne_nil
  generalize Nat.toDigits 10 n.natAbs = ds at *
  obtain ⟨d, more, hcons⟩ := List.exists_cons_of_ne_nil hne
  have hd : isDigit d = true := hds d (hcons ▸ List.mem_cons_self)
  have hhead : ∀ rest, ∃ d more, ds ++ rest = d :: more ∧ isDigit d = true :=
    fun rest => ⟨d, more ++ rest, by rw [hcons]; rfl, hd⟩
  by_cases hsign : 0 ≤ n
  · rw [if_pos hsign] at htext
    refine ⟨⟨d, more, htext.trans hcons, ?_, ?_⟩, fun hrest => ?_⟩
    · exact isBlank_digit hd
    · rintro rfl
      exact absurd hd (by decide)
    · have hnumber := numberValue_digits hds hne h
      rw [hvalue, Int.natAbs_of_nonneg hsign] at hnumber
      rw [htext]
      exact readValue_number (hhead _) (readNumber_digits hds hne hzero hrest hnumber)
  · rw [if_neg hsign] at htext
    refine ⟨⟨'-', ds, htext, rfl, by decide⟩, fun hrest => ?_⟩
    have hnumber := numberValue_negative hds hne h
    rw [hvalue, show -(n.natAbs : Int) = n by omega] at hnumber
    rw [htext]
    exact readValue_negative (hhead _) (readNumber_digits hds hne hzero hrest hnumber)

-- ================================================================ leaves

theorem readsBack_null : ReadsBack .null :=
  ⟨⟨'n', ['u', 'l', 'l'], rfl, rfl, by decide⟩, fun _ => readValue_word rfl⟩

theorem readsBack_bool (b : Bool) : ReadsBack (.bool b) := by
  cases b with
  | true => exact ⟨⟨'t', ['r', 'u', 'e'], rfl, rfl, by decide⟩, fun _ => readValue_word rfl⟩
  | false => exact ⟨⟨'f', ['a', 'l', 's', 'e'], rfl, rfl, by decide⟩, fun _ => readValue_word rfl⟩

theorem toList_quote (s : String) : (quote s).toList = '"' :: (s.toList.flatMap stringChar ++ ['"']) := by
  simp [quote]

theorem quote_append (s : String) (rest : List Char) :
    (quote s).toList ++ rest = '"' :: (s.toList.flatMap stringChar ++ '"' :: rest) := by
  simp [toList_quote]

theorem readsBack_string (s : String) : ReadsBack (.string s) := by
  have htext : write (.string s) = quote s := by simp only [write, writeLeaf]
  refine ⟨⟨'"', _, htext ▸ toList_quote s, rfl, by decide⟩, fun {rest} _ => ?_⟩
  obtain ⟨_, hread⟩ := (readString_quoted s.toList rest).exists
  rw [htext, quote_append, readValue.eq_1, readWord?_none rfl, hread]
  simp [Gives, Except.map, Reading.pair, Reading.widen, Reading.map]

-- ================================================================ arrays

/-- The last item of an array. -/
theorem Gives.last {cs rest : List Char} {value : Json}
    (hvalue : Gives (readValue cs) value (']' :: rest)) : Gives (readItems cs) [value] rest := by
  obtain ⟨_, hread⟩ := hvalue.exists
  rw [readItems.eq_1, hread]
  rfl

/-- An item that another one follows. -/
theorem Gives.item {cs more rest : List Char} {value : Json} {values : List Json}
    (hvalue : Gives (readValue cs) value (',' :: more))
    (hmore : Gives (readItems (skipBlank more)) values rest) :
    Gives (readItems cs) (value :: values) rest := by
  obtain ⟨_, hread⟩ := hvalue.exists
  obtain ⟨_, hitems⟩ := hmore.exists
  have hclose : after? ']' (skipBlank (',' :: more)) = none := rfl
  have hcomma : after? ',' (skipBlank (',' :: more)) = some ⟨more, Nat.lt_succ_self _⟩ := rfl
  rw [readItems.eq_1, hread]
  simp only [hclose, hcomma, hitems]
  rfl

/-- An array that is not empty. -/
theorem Gives.array {cs rest : List Char} {values : List Json}
    (hopen : after? ']' (skipBlank cs) = none)
    (hitems : Gives (readItems (skipBlank cs)) values rest) :
    Gives (readValue ('[' :: cs)) (.array values) rest := by
  obtain ⟨_, hread⟩ := hitems.exists
  rw [readValue.eq_3, readWord?_none rfl]
  dsimp only
  rw [hopen, hread]
  rfl

/-- The text of several parts. -/
theorem toList_commas_cons (part next : String) (parts : List String) :
    (", ".intercalate (part :: next :: parts)).toList =
      part.toList ++ ',' :: ' ' :: (", ".intercalate (next :: parts)).toList := by
  simp

theorem exists_commas (part : String) (parts : List String) :
    ∃ more, (", ".intercalate (part :: parts)).toList = part.toList ++ more := by
  cases parts with
  | nil => exact ⟨[], by simp⟩
  | cons next parts => exact ⟨_, toList_commas_cons part next parts⟩

/-- Items begin as the first of them does. -/
theorem ReadsBack.items_open {item : Json} (h : ReadsBack item) (items : List Json)
    (rest : List Char) :
    ∃ c cs, (", ".intercalate (writeItems (item :: items))).toList ++ rest = c :: cs ∧
      isBlank c = false ∧ c ≠ ']' := by
  obtain ⟨c, cs, hcs, hblank, hclose⟩ := h.opens
  obtain ⟨more, hmore⟩ := exists_commas (write item) (writeItems items)
  exact ⟨c, cs ++ more ++ rest, by rw [writeItems, hmore, hcs]; rfl, hblank, hclose⟩

theorem readItems_write {item : Json} {items : List Json}
    (h : ∀ j ∈ item :: items, ReadsBack j) (rest : List Char) :
    Gives (readItems ((", ".intercalate (writeItems (item :: items))).toList ++ ']' :: rest))
      (item :: items) rest := by
  induction items generalizing item with
  | nil =>
    have hvalue := (h item List.mem_cons_self).reads (behind_cons (.inr (.inl rfl)) rest)
    rw [writeItems, writeItems, String.intercalate_singleton]
    exact hvalue.last
  | cons next items ih =>
    have hnext : ∀ j ∈ next :: items, ReadsBack j := fun j hj => h j (List.mem_cons_of_mem _ hj)
    obtain ⟨c, cs, hcs, hblank, -⟩ :=
      (hnext next List.mem_cons_self).items_open items (']' :: rest)
    have hmore := ih hnext
    rw [hcs] at hmore
    have htext : (", ".intercalate (writeItems (item :: next :: items))).toList ++ ']' :: rest =
        (write item).toList ++ ',' :: ' ' :: c :: cs := by
      rw [← hcs, writeItems, writeItems, toList_commas_cons, List.append_assoc]
      rfl
    rw [htext]
    refine ((h item List.mem_cons_self).reads (behind_cons (.inl rfl) _)).item ?_
    rwa [skipBlank_space, skipBlank_cons hblank]

theorem toList_write_array (items : List Json) :
    (write (.array items)).toList =
      '[' :: ((", ".intercalate (writeItems items)).toList ++ [']']) := by
  simp only [write, String.toList_append]
  rfl

theorem readsBack_array {items : List Json} (h : ∀ j ∈ items, ReadsBack j) :
    ReadsBack (.array items) := by
  refine ⟨⟨_, _, toList_write_array items, rfl, by decide⟩, fun {rest} _ => ?_⟩
  rw [toList_write_array, List.cons_append, List.append_assoc, List.cons_append, List.nil_append]
  cases items with
  | nil =>
    rw [readValue.eq_3, readWord?_none rfl]
    rfl
  | cons item items =>
    obtain ⟨c, cs, hcs, hblank, hclose⟩ := (h item List.mem_cons_self).items_open items (']' :: rest)
    have hitems := readItems_write h rest
    rw [hcs] at hitems ⊢
    refine Gives.array ?_ ?_
    · rw [skipBlank_cons hblank]
      exact after?_ne hclose cs
    · rwa [skipBlank_cons hblank]

-- =============================================================== objects

section

variable {before members : List (String × Json)} {name cs cs' more rest : List Char} {value : Json}

/-- The last member of an object. -/
theorem Gives.lastMember (hname : Gives (readString cs) name (':' :: cs'))
    (hvalue : Gives (readValue (skipBlank cs')) value ('\x7d' :: rest)) :
    Gives (readMembers before ('"' :: cs))
      (Bindings.insert (String.ofList name) value before) rest := by
  obtain ⟨_, hread⟩ := hname.exists
  obtain ⟨_, hread'⟩ := hvalue.exists
  have hcolon : after? ':' (skipBlank (':' :: cs')) = some ⟨cs', Nat.lt_succ_self _⟩ := rfl
  rw [readMembers, after?_self]
  dsimp only
  rw [hread]
  dsimp only
  rw [hcolon]
  dsimp only
  rw [hread']
  rfl

/-- A member that another one follows. -/
theorem Gives.member (hname : Gives (readString cs) name (':' :: cs'))
    (hvalue : Gives (readValue (skipBlank cs')) value (',' :: more))
    (hmore : Gives (readMembers (Bindings.insert (String.ofList name) value before)
      (skipBlank more)) members rest) :
    Gives (readMembers before ('"' :: cs)) members rest := by
  obtain ⟨_, hread⟩ := hname.exists
  obtain ⟨_, hread'⟩ := hvalue.exists
  obtain ⟨_, hread''⟩ := hmore.exists
  have hcolon : after? ':' (skipBlank (':' :: cs')) = some ⟨cs', Nat.lt_succ_self _⟩ := rfl
  have hclose : after? '\x7d' (skipBlank (',' :: more)) = none := rfl
  have hcomma : after? ',' (skipBlank (',' :: more)) = some ⟨more, Nat.lt_succ_self _⟩ := rfl
  rw [readMembers, after?_self]
  dsimp only
  rw [hread]
  dsimp only
  rw [hcolon]
  dsimp only
  rw [hread']
  dsimp only
  rw [hclose, hcomma]
  dsimp only
  rw [hread'']
  rfl

/-- An object that is not empty. -/
theorem Gives.object (hmembers : Gives (readMembers [] ('"' :: cs)) members rest) :
    Gives (readValue ('\x7b' :: '"' :: cs)) (.object members) rest := by
  obtain ⟨_, hread⟩ : ∃ shorter, readMembers [] (skipBlank ('"' :: cs)) =
      .ok ⟨members, rest, shorter⟩ := hmembers.exists
  have hclose : after? '\x7d' (skipBlank ('"' :: cs)) = none := rfl
  rw [readValue.eq_4, readWord?_none rfl]
  dsimp only
  rw [hclose]
  dsimp only
  rw [hread]
  rfl

end

/-- The text of members begins with the quotes of the first name. -/
theorem toList_member (name : String) (value : Json) (more : List Char) :
    (quote name ++ ": " ++ write value).toList ++ more =
      '"' :: (name.toList.flatMap stringChar ++
        '"' :: ':' :: ' ' :: ((write value).toList ++ more)) := by
  simp [toList_quote]

/-- The value of a member, behind the colon and a blank. -/
theorem ReadsBack.member {value : Json} (h : ReadsBack value) {rest : List Char}
    (hrest : Behind rest) :
    Gives (readValue (skipBlank (' ' :: ((write value).toList ++ rest)))) value rest := by
  obtain ⟨c, cs, hcs, hblank, -⟩ := h.opens
  have hvalue := h.reads hrest
  rw [hcs] at hvalue ⊢
  rw [skipBlank_space, List.cons_append, skipBlank_cons hblank]
  exact hvalue

/-- Members begin with the quotes of the first name. -/
theorem members_open (m : String × Json) (members : List (String × Json)) (rest : List Char) :
    ∃ cs, (", ".intercalate (writeMembers (m :: members))).toList ++ rest = '"' :: cs := by
  obtain ⟨more, hmore⟩ := exists_commas (quote m.1 ++ ": " ++ write m.2) (writeMembers members)
  rw [writeMembers, hmore, List.append_assoc, toList_member]
  exact ⟨_, rfl⟩

/-- A member with a new name is put behind those read before. -/
theorem insert_member {m : String × Json} {members before : List (String × Json)}
    (hnames : (Bindings.names (before ++ m :: members)).Nodup) :
    Bindings.insert (String.ofList m.1.toList) m.2 before = before ++ [m] := by
  rw [String.ofList_toList]
  refine Bindings.insert_of_not_mem m.2 fun hmem => ?_
  rw [Bindings.names, List.map_append, List.nodup_append] at hnames
  exact hnames.2.2 m.1 hmem m.1 List.mem_cons_self rfl

theorem readMembers_write {m : String × Json} {members before : List (String × Json)}
    (h : ∀ m' ∈ m :: members, ReadsBack m'.2)
    (hnames : (Bindings.names (before ++ m :: members)).Nodup) (rest : List Char) :
    Gives (readMembers before
        ((", ".intercalate (writeMembers (m :: members))).toList ++ '\x7d' :: rest))
      (before ++ m :: members) rest := by
  have hinsert := insert_member hnames
  induction members generalizing m before with
  | nil =>
    rw [writeMembers, writeMembers, String.intercalate_singleton, toList_member, ← hinsert]
    exact Gives.lastMember (readString_quoted m.1.toList _)
      ((h m List.mem_cons_self).member (behind_cons (.inr (.inr rfl)) rest))
  | cons next members ih =>
    have hbefore : before ++ m :: next :: members = (before ++ [m]) ++ next :: members := by simp
    have hnext : ∀ m' ∈ next :: members, ReadsBack m'.2 :=
      fun m' hm' => h m' (List.mem_cons_of_mem _ hm')
    rw [hbefore] at hnames ⊢
    have hmore := ih hnext hnames (insert_member hnames)
    obtain ⟨cs, hcs⟩ := members_open next members ('\x7d' :: rest)
    have htext : (", ".intercalate (writeMembers (m :: next :: members))).toList ++ '\x7d' :: rest =
        (quote m.1 ++ ": " ++ write m.2).toList ++ ',' :: ' ' :: '"' :: cs := by
      rw [← hcs, writeMembers, writeMembers, toList_commas_cons, List.append_assoc]
      rfl
    rw [htext, toList_member]
    rw [hcs, ← hinsert] at hmore
    rw [← hinsert]
    exact Gives.member (readString_quoted m.1.toList _)
      ((h m List.mem_cons_self).member (behind_cons (.inl rfl) _)) hmore

theorem toList_write_object (members : List (String × Json)) :
    (write (.object members)).toList =
      '\x7b' :: ((", ".intercalate (writeMembers members)).toList ++ ['\x7d']) := by
  simp only [write, String.toList_append]
  rfl

theorem readsBack_object {members : List (String × Json)} (h : ∀ m ∈ members, ReadsBack m.2)
    (hnames : (Bindings.names members).Nodup) : ReadsBack (.object members) := by
  refine ⟨⟨_, _, toList_write_object members, rfl, by decide⟩, fun {rest} _ => ?_⟩
  rw [toList_write_object, List.cons_append, List.append_assoc, List.cons_append, List.nil_append]
  cases members with
  | nil =>
    rw [readValue.eq_4, readWord?_none rfl]
    rfl
  | cons m members =>
    obtain ⟨cs, hcs⟩ := members_open m members ('\x7d' :: rest)
    have hnone : (Bindings.names ([] ++ m :: members)).Nodup := hnames
    have hmembers := readMembers_write h hnone rest
    rw [hcs] at hmembers ⊢
    exact hmembers.object

-- ================================================================= values

theorem Portable.readsBack {j : Json} (h : Portable j) : ReadsBack j := by
  induction h with
  | null => exact readsBack_null
  | bool b => exact readsBack_bool b
  | int h => exact readsBack_int h
  | string s => exact readsBack_string s
  | array _ ih => exact readsBack_array ih
  | object hnames _ ih => exact readsBack_object ih hnames

/-- Nothing is lost between writing and reading. -/
theorem read?_write {j : Json} (h : Portable j) : read? (write j).toList = .ok j := by
  obtain ⟨c, cs, hcs, hblank, -⟩ := h.readsBack.opens
  have hskip : skipBlank (write j).toList = (write j).toList := by
    rw [hcs, skipBlank_cons hblank]
  have hvalue := h.readsBack.reads behind_nil
  rw [List.append_nil, ← hskip] at hvalue
  obtain ⟨_, hread⟩ := hvalue.exists
  rw [read?, hread]
  rfl

end Json

end SamScript
