/-
Which line of a text a place is on. Places count line feeds, while a text is
split at every break that a display knows. Where the text before a place has no
other breaks (`feedsOnly`), the line of its number is the one it is on: what
stands since the last line feed, and what follows up to the next break
(`toList_of_line?`). Lines without breaks in them are what the text they are
joined to is split into (`split_intercalate`).
-/
import SamScript.Text.Lines

namespace SamScript.Lines

-- ============================================================== line feeds

/-- Whether the lines of a text are broken by line feeds only, alone or behind a
carriage return. -/
def feedsOnly : List Char → Bool
  | [] => true
  | '\r' :: '\n' :: rest => feedsOnly rest
  | c :: rest => (c = '\n' || !isBreak c) && feedsOnly rest

/-- What stands in a text since its last line feed. -/
def since (text : List Char) : List Char :=
  (text.reverse.takeWhile (· ≠ '\n')).reverse

theorem since_feed (front text : List Char) : since (front ++ '\n' :: text) = since text := by
  have hstop : ('\n' :: front.reverse).takeWhile (· ≠ '\n') = [] := rfl
  rw [since, since, List.reverse_append, List.reverse_cons, List.append_assoc,
    List.singleton_append, List.takeWhile_append, hstop, List.append_nil]
  split
  · rename_i hall
    have := List.takeWhile_prefix (p := fun c : Char => decide (c ≠ '\n')) (l := text.reverse)
    rw [this.eq_of_length hall]
  · rfl

theorem since_of_not_mem {text : List Char} (h : '\n' ∉ text) : since text = text := by
  have hall : ∀ c ∈ text.reverse, decide (c ≠ '\n') = true := fun c hc =>
    decide_eq_true fun he => h (he ▸ List.mem_reverse.1 hc)
  have hrun : (text.reverse ++ []).takeWhile (· ≠ '\n') = text.reverse ++ [] :=
    List.takeWhile_append_of_pos hall
  rw [List.append_nil] at hrun
  rw [since, hrun, List.reverse_reverse]

-- =============================================================== splitting

variable {line rest : List Char} {c : Char}

theorem splitFrom_feed (line rest : List Char) :
    splitFrom line ('\n' :: rest) = line.reverse :: splitFrom [] rest := by
  cases line <;> rfl

theorem splitFrom_return_feed (line rest : List Char) :
    splitFrom line ('\r' :: '\n' :: rest) = line.reverse :: splitFrom [] rest := by
  cases line <;> rfl

theorem splitFrom_nil (c : Char) (line : List Char) :
    splitFrom (c :: line) [] = [(c :: line).reverse] :=
  rfl

/-- A character ends the line begun or belongs to it, unless it is a carriage return
with a line feed behind it. -/
theorem splitFrom_cons (hpair : ∀ more, c = '\r' → rest ≠ '\n' :: more) (line : List Char) :
    splitFrom line (c :: rest) =
      if isBreak c then line.reverse :: splitFrom [] rest else splitFrom (c :: line) rest := by
  rw [splitFrom.eq_def]
  split
  · rename_i he
    cases he
  · rename_i he
    cases he
  · rename_i he
    obtain ⟨hc, hrest⟩ := List.cons.inj he
    exact absurd hrest (hpair _ hc)
  · rename_i he
    cases he
    rfl

theorem splitFrom_of_not_break (h : isBreak c = false) (line rest : List Char) :
    splitFrom line (c :: rest) = splitFrom (c :: line) rest := by
  have hpair : ∀ more, c = '\r' → rest ≠ '\n' :: more := by
    rintro more rfl
    cases h
  rw [splitFrom_cons hpair, if_neg (by rw [h]; exact Bool.false_ne_true)]

/-- A break ends the line begun, and what is behind it begins another, unless it is
the line feed of a carriage return. -/
theorem splitFrom_break (h : isBreak c = true) (hpair : ∀ more, c = '\r' → rest ≠ '\n' :: more)
    (line : List Char) : splitFrom line (c :: rest) = line.reverse :: splitFrom [] rest := by
  rw [splitFrom_cons hpair, if_pos h]

theorem splitFrom_of_break (h : isBreak c = true) (line rest : List Char) :
    ∃ more, splitFrom line (c :: rest) = line.reverse :: more := by
  by_cases hpair : ∃ more, c = '\r' ∧ rest = '\n' :: more
  · obtain ⟨more, rfl, rfl⟩ := hpair
    exact ⟨_, splitFrom_return_feed line more⟩
  · exact ⟨_, splitFrom_break h (fun more hc hrest => hpair ⟨more, hc, hrest⟩) line⟩

/-- The line begun reaches to the next break. -/
theorem head?_splitFrom {found : List Char} (h : (splitFrom line rest).head? = some found) :
    found = line.reverse ++ rest.takeWhile (!isBreak ·) := by
  induction rest generalizing line with
  | nil =>
    rw [List.takeWhile_nil, List.append_nil]
    cases line with
    | nil => cases h
    | cons c line =>
      cases h
      rfl
  | cons c rest ih =>
    cases hc : isBreak c with
    | true =>
      obtain ⟨more, hmore⟩ := splitFrom_of_break hc line rest
      rw [hmore] at h
      cases h
      rw [List.takeWhile_cons_of_neg (by simp [hc]), List.append_nil]
    | false =>
      rw [splitFrom_of_not_break hc] at h
      rw [ih h, List.takeWhile_cons_of_pos (by simp [hc]), List.reverse_cons, List.append_assoc]
      rfl

/-- The line on which what comes behind some text begins. -/
theorem splitFrom_getElem? {before found : List Char} (hbefore : feedsOnly before = true)
    (hline : '\n' ∉ line)
    (h : (splitFrom line (before ++ rest))[before.count '\n']? = some found) :
    found = since (line.reverse ++ before) ++ rest.takeWhile (!isBreak ·) := by
  fun_induction feedsOnly before generalizing line with
  | case1 =>
    rw [List.append_nil, since_of_not_mem (by simpa using hline)]
    refine head?_splitFrom ?_
    rwa [List.head?_eq_getElem?]
  | case2 text ih =>
    have hcount : ('\r' :: '\n' :: text).count '\n' = text.count '\n' + 1 := by
      rw [List.count_cons_of_ne (by decide), List.count_cons_self]
    rw [List.cons_append, List.cons_append, splitFrom_return_feed, hcount,
      List.getElem?_cons_succ] at h
    have hsince : since (line.reverse ++ '\r' :: '\n' :: text) = since text := by
      have := since_feed (line.reverse ++ ['\r']) text
      rwa [List.append_assoc, List.singleton_append] at this
    rw [hsince]
    exact ih hbefore List.not_mem_nil h
  | case3 c text _ ih =>
    obtain ⟨hc, htext⟩ := Bool.and_eq_true_iff.1 hbefore
    rw [Bool.or_eq_true, decide_eq_true_eq, Bool.not_eq_true'] at hc
    rcases hc with rfl | hc
    · rw [List.cons_append, splitFrom_feed, List.count_cons_self, List.getElem?_cons_succ] at h
      rw [since_feed]
      exact ih htext List.not_mem_nil h
    · have hne : c ≠ '\n' := by
        rintro rfl
        cases hc
      rw [List.cons_append, splitFrom_of_not_break hc, List.count_cons_of_ne hne] at h
      have hmore : '\n' ∉ c :: line := by
        rw [List.mem_cons]
        rintro (he | he)
        · exact hne he.symm
        · exact hline he
      have := ih htext hmore h
      rwa [List.reverse_cons, List.append_assoc] at this

/-- The line that a place of a text is on, if the text before it has no breaks but
line feeds. -/
theorem toList_of_line? {before : List Char} {found : String} (hbefore : feedsOnly before = true)
    (h : line? (split (before ++ rest)) (before.count '\n' + 1) = some found) :
    found.toList = since before ++ rest.takeWhile (!isBreak ·) := by
  rw [line?, if_neg (Nat.succ_ne_zero _), Nat.add_sub_cancel, split, List.getElem?_map] at h
  obtain ⟨chars, hchars, rfl⟩ := Option.map_eq_some_iff.1 h
  rw [String.toList_ofList]
  exact splitFrom_getElem? hbefore List.not_mem_nil hchars

-- ============================================================== more lines

/-- A text that goes on has a line. -/
theorem splitFrom_ne_nil (line : List Char) (h : rest ≠ []) : splitFrom line rest ≠ [] := by
  induction rest generalizing line with
  | nil => exact absurd rfl h
  | cons c rest ih =>
    cases hc : isBreak c with
    | true =>
      obtain ⟨more, hmore⟩ := splitFrom_of_break hc line rest
      rw [hmore]
      exact List.cons_ne_nil _ _
    | false =>
      rw [splitFrom_of_not_break hc]
      cases rest with
      | nil => exact List.cons_ne_nil _ _
      | cons d rest => exact ih (c :: line) (List.cons_ne_nil _ _)

/-- A text has a line for each line feed, and one more if it goes on. -/
theorem count_lt_splitFrom (line before : List Char) (h : rest ≠ []) :
    before.count '\n' < (splitFrom line (before ++ rest)).length := by
  fun_induction splitFrom line before with
  | case1 => exact List.length_pos_iff.2 (splitFrom_ne_nil _ h)
  | case2 => exact List.length_pos_iff.2 (splitFrom_ne_nil _ h)
  | case3 line before ih =>
    rw [List.cons_append, List.cons_append, splitFrom_return_feed, List.length_cons,
      List.count_cons_of_ne (by decide), List.count_cons_self]
    omega
  | case4 line c before hpair hc ih =>
    cases before with
    | nil =>
      -- a carriage return may meet a line feed of the rest
      by_cases hfeed : c = '\n'
      · rw [hfeed, List.singleton_append, splitFrom_feed, List.count_singleton_self,
          List.length_cons]
        have := List.length_pos_iff.2 (splitFrom_ne_nil [] h)
        omega
      · rw [List.count_cons_of_ne hfeed]
        exact List.length_pos_iff.2 (splitFrom_ne_nil _ (List.cons_ne_nil _ _))
    | cons d before =>
      have hpair' : ∀ more, c = '\r' → d :: before ++ rest ≠ '\n' :: more := by
        intro more hc he
        rw [List.cons_append] at he
        exact hpair before hc (by rw [(List.cons.inj he).1])
      have hcount : (c :: d :: before).count '\n' ≤ (d :: before).count '\n' + 1 := by
        rw [List.count_cons]
        split <;> omega
      rw [List.cons_append, splitFrom_break hc hpair', List.length_cons]
      omega
  | case5 line c before hpair hc ih =>
    rw [Bool.not_eq_true] at hc
    have hfeed : c ≠ '\n' := by
      rintro rfl
      cases hc
    rw [List.cons_append, splitFrom_of_not_break hc, List.count_cons_of_ne hfeed]
    exact ih

/-- A line feed and more text behind a text leave its lines as they were. -/
theorem splitFrom_prefix (line text more : List Char) :
    splitFrom line text <+: splitFrom line (text ++ '\n' :: more) := by
  fun_induction splitFrom line text with
  | case1 => exact List.nil_prefix
  | case2 c line =>
    rw [List.nil_append, splitFrom_feed]
    exact ⟨_, rfl⟩
  | case3 line text ih =>
    rw [List.cons_append, List.cons_append, splitFrom_return_feed]
    exact List.cons_prefix_cons.2 ⟨rfl, ih⟩
  | case4 line c text hpair hc ih =>
    cases text with
    | nil =>
      obtain ⟨lines, hlines⟩ := splitFrom_of_break hc line ('\n' :: more)
      rw [List.singleton_append, hlines]
      exact ⟨lines, rfl⟩
    | cons d text =>
      have hpair' : ∀ more', c = '\r' → d :: text ++ '\n' :: more ≠ '\n' :: more' := by
        intro more' hc he
        rw [List.cons_append] at he
        exact hpair text hc (by rw [(List.cons.inj he).1])
      rw [List.cons_append, splitFrom_break hc hpair']
      exact List.cons_prefix_cons.2 ⟨rfl, ih⟩
  | case5 line c text hpair hc ih =>
    rw [List.cons_append, splitFrom_of_not_break (Bool.not_eq_true _ ▸ hc)]
    exact ih

/-- The line that a place of a text is on stays the same if a line feed and more text
come behind it. -/
theorem line?_behind (before more : List Char) (h : rest ≠ []) :
    line? (split (before ++ rest ++ '\n' :: more)) (before.count '\n' + 1) =
      line? (split (before ++ rest)) (before.count '\n' + 1) := by
  obtain ⟨lines, hlines⟩ := splitFrom_prefix [] (before ++ rest) more
  rw [line?, line?, if_neg (Nat.succ_ne_zero _), if_neg (Nat.succ_ne_zero _), Nat.add_sub_cancel,
    split, split, List.getElem?_map, List.getElem?_map, ← hlines,
    List.getElem?_append_left (count_lt_splitFrom [] before h)]

-- ============================================================ joined lines

/-- Characters that are no breaks all go to the line begun. -/
theorem splitFrom_unbroken {text : List Char} (h : ∀ c ∈ text, isBreak c = false)
    (line rest : List Char) :
    splitFrom line (text ++ rest) = splitFrom (text.reverse ++ line) rest := by
  induction text generalizing line with
  | nil => rfl
  | cons c text ih =>
    rw [List.forall_mem_cons] at h
    rw [List.cons_append, splitFrom_of_not_break h.1, ih h.2, List.reverse_cons, List.append_assoc]
    rfl

/-- Lines that are joined by line feeds are found again, unless one is empty or has a
break in it. -/
theorem split_intercalate {lines : List String}
    (h : ∀ line ∈ lines, line.toList ≠ [] ∧ ∀ c ∈ line.toList, isBreak c = false) :
    split ("\n".intercalate lines).toList = lines := by
  have hsplit : splitFrom [] (['\n'].intercalate (lines.map String.toList)) =
      lines.map String.toList := by
    induction lines with
    | nil => rfl
    | cons line rest ih =>
      rw [List.forall_mem_cons] at h
      cases rest with
      | nil =>
        obtain ⟨c, cs, hline⟩ := List.exists_cons_of_ne_nil
          (fun he => h.1.1 (List.reverse_eq_nil_iff.1 he) : line.toList.reverse ≠ [])
        have hlast : splitFrom line.toList.reverse [] = [line.toList] := by
          rw [hline, splitFrom_nil, ← hline, List.reverse_reverse]
        have := splitFrom_unbroken h.1.2 [] []
        rw [List.append_nil, List.append_nil, hlast] at this
        rwa [List.map_singleton, List.intercalate_singleton]
      | cons next rest =>
        rw [List.map_cons, List.map_cons, List.intercalate_cons_cons, List.append_assoc,
          splitFrom_unbroken h.1.2, List.singleton_append, splitFrom_feed, List.append_nil,
          List.reverse_reverse]
        exact congrArg (line.toList :: ·) (ih h.2)
  have hback : (String.ofList ∘ String.toList) = id := funext fun _ => String.ofList_toList
  rw [split, String.toList_intercalate]
  exact (congrArg (List.map String.ofList) hsplit).trans (by rw [List.map_map, hback, List.map_id])

end SamScript.Lines
