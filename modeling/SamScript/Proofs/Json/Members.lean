/-
What the JSON reader answers. However deep objects lie in what it read, each
of them has every name once, since a name that comes again takes the place of
the one before (`Json.read?_distinct`); and it gives up for nesting only where
a limit on that was set (`Json.readWithin_none`). Both are one induction over
the reader.
-/
import SamScript.Json.Reader

namespace SamScript

-- =============================================================== bindings

namespace Bindings

variable {α : Type}

theorem nodup_insert {b : Bindings α} (h : b.names.Nodup) (name : String) (value : α) :
    (b.insert name value).names.Nodup := by
  by_cases hmem : name ∈ b.names
  · rwa [names_insert_of_mem value hmem]
  · rw [names_insert_of_not_mem value hmem, List.nodup_append]
    refine ⟨h, List.nodup_cons.2 ⟨List.not_mem_nil, List.nodup_nil⟩, fun a ha b hb => ?_⟩
    rw [List.mem_singleton.1 hb]
    rintro rfl
    exact hmem ha

theorem forall_mem_insert {p : α → Prop} {b : Bindings α} (h : ∀ m ∈ b, p m.2) (name : String)
    {value : α} (hvalue : p value) : ∀ m ∈ b.insert name value, p m.2 := by
  induction b with
  | nil => exact List.forall_mem_singleton.2 hvalue
  | cons m rest ih =>
    obtain ⟨key, old⟩ := m
    rw [List.forall_mem_cons] at h
    rw [insert]
    split
    · exact List.forall_mem_cons.2 ⟨hvalue, h.2⟩
    · exact List.forall_mem_cons.2 ⟨h.1, ih h.2⟩

end Bindings

namespace Json

/-- Whether every object has every name once, however deep it lies. -/
inductive Distinct : Json → Prop where
  | null : Distinct .null
  | bool (b : Bool) : Distinct (.bool b)
  | int (n : Int) : Distinct (.int n)
  | float (x : Float) : Distinct (.float x)
  | string (s : String) : Distinct (.string s)
  | array {items : List Json} : (∀ j ∈ items, Distinct j) → Distinct (.array items)
  | object {members : List (String × Json)} : (Bindings.names members).Nodup →
      (∀ m ∈ members, Distinct m.2) → Distinct (.object members)

-- ================================================================= readers

/-- Whether something holds of what was read, and nothing was found to nest
too deep. -/
def Reads {α : Type} {bound : Nat} (p : α → Prop) : Except Fault (Reading Char α bound) → Prop
  | .error fault => fault ≠ .tooDeep
  | .ok r => p r.value

theorem readString_reads (cs : List Char) : Reads (fun _ => True) (readString cs) := by
  fun_induction readString cs <;> simp_all [Reads]

theorem numberValue_ne {sign whole fraction exponent : List Char} {fault : Fault}
    (h : numberValue sign whole fraction exponent = .error fault) : fault ≠ .tooDeep := by
  unfold numberValue at h
  dsimp only at h
  split at h
  · split at h <;> (cases h; try exact nofun)
  · split at h <;> (cases h; try exact nofun)

theorem numberValue_distinct {sign whole fraction exponent : List Char} {j : Json}
    (h : numberValue sign whole fraction exponent = .ok j) : j.Distinct := by
  unfold numberValue at h
  dsimp only at h
  split at h
  · split at h <;> cases h
    exact .int _
  · split at h <;> cases h
    exact .float _

theorem readNumber_reads (sign cs : List Char) : Reads Distinct (readNumber sign cs) := by
  unfold readNumber
  split
  · exact nofun
  · split
    · dsimp only
      split
      · exact numberValue_ne ‹_›
      · exact numberValue_distinct ‹_›
    · exact nofun

theorem word?_distinct {cs rest : List Char} {j : Json} (h : word? cs = some (j, rest)) :
    j.Distinct := by
  unfold word? at h
  split at h <;> cases h <;> constructor

theorem readWord?_distinct {cs : List Char} {r : Reading Char Json cs.length}
    (h : readWord? cs = some r) : r.value.Distinct := by
  unfold readWord? at h
  split at h
  · cases h
    exact word?_distinct ‹_›
  · cases h

mutual

theorem readValue_reads (cs : List Char) : Reads Distinct (readValue cs) := by
  rw [readValue.eq_def]
  split
  · exact readWord?_distinct ‹_›
  · split
    · -- a string
      rename_i rest _ _
      have h := readString_reads rest
      split
      · rename_i hr
        rwa [hr] at h
      · exact .string _
    · -- a number behind its sign
      rename_i rest _ _
      have h := readNumber_reads ['-'] rest
      split
      · rename_i hr
        rwa [hr] at h
      · rename_i hr
        rwa [hr] at h
    · -- an array
      rename_i rest _ _
      have shorter := length_skipBlank_le rest
      dsimp only
      split
      · exact .array (List.forall_mem_nil _)
      · have h := readItems_reads (skipBlank rest)
        split
        · rename_i hr
          rwa [hr] at h
        · rename_i hr
          rw [hr] at h
          exact .array h
    · -- an object
      rename_i rest _ _
      have shorter := length_skipBlank_le rest
      dsimp only
      split
      · exact .object List.nodup_nil (List.forall_mem_nil _)
      · have hnone : (Bindings.names ([] : List (String × Json))).Nodup := List.nodup_nil
        have h := readMembers_reads (skipBlank rest) hnone (List.forall_mem_nil _)
        split
        · rename_i hr
          rwa [hr] at h
        · rename_i hr
          rw [hr] at h
          exact .object h.1 h.2
    · exact readNumber_reads [] _
termination_by 2 * cs.length
decreasing_by
  all_goals
    subst_vars
    simp only [List.length_cons]
    omega

theorem readItems_reads (cs : List Char) : Reads (fun js => ∀ j ∈ js, Distinct j) (readItems cs) := by
  have hvalue := readValue_reads cs
  rw [readItems]
  split
  · rename_i hr
    rwa [hr] at hvalue
  · rename_i value rest hlt hr
    rw [hr] at hvalue
    have shorter := length_skipBlank_le rest
    dsimp only
    split
    · exact List.forall_mem_singleton.2 hvalue
    · split
      · rename_i after h _
        have shorter' := length_skipBlank_le after
        have hmore := readItems_reads (skipBlank after)
        split
        · rename_i hr
          rwa [hr] at hmore
        · rename_i hr
          rw [hr] at hmore
          exact List.forall_mem_cons.2 ⟨hvalue, hmore⟩
      · exact nofun
termination_by 2 * cs.length + 1
decreasing_by all_goals omega

theorem readMembers_reads {before : List (String × Json)} (cs : List Char)
    (hnames : (Bindings.names before).Nodup) (hbefore : ∀ m ∈ before, Distinct m.2) :
    Reads (fun ms => (Bindings.names ms).Nodup ∧ ∀ m ∈ ms, Distinct m.2)
      (readMembers before cs) := by
  rw [readMembers]
  split
  · exact nofun
  · rename_i rest h _
    split
    · rename_i hr
      have hname := readString_reads rest
      rwa [hr] at hname
    · rename_i name rest₁ h₁ _
      have shorter₁ := length_skipBlank_le rest₁
      dsimp only
      split
      · exact nofun
      · rename_i rest₂ h₂ _
        have shorter₂ := length_skipBlank_le rest₂
        have hvalue := readValue_reads (skipBlank rest₂)
        split
        · rename_i hr
          rwa [hr] at hvalue
        · rename_i value rest₃ h₃ hr
          rw [hr] at hvalue
          have shorter₃ := length_skipBlank_le rest₃
          have hnames' := Bindings.nodup_insert hnames (String.ofList name) value
          have hmembers := Bindings.forall_mem_insert hbefore (String.ofList name) hvalue
          split
          · exact ⟨hnames', hmembers⟩
          · split
            · exact nofun
            · rename_i after h₄ _
              have shorter₄ := length_skipBlank_le after
              have hmore := readMembers_reads (skipBlank after) hnames' hmembers
              split
              · rename_i hr
                rwa [hr] at hmore
              · rename_i hr
                rwa [hr] at hmore
termination_by 2 * cs.length + 1
decreasing_by all_goals omega

end

-- =================================================================== texts

theorem read?_distinct {cs : List Char} {j : Json} (h : read? cs = .ok j) : j.Distinct := by
  have hvalue := readValue_reads (skipBlank cs)
  unfold read? at h
  split at h
  · cases h
  · rename_i hr
    rw [hr] at hvalue
    split at h <;> cases h
    exact hvalue

theorem read?_ne {cs : List Char} {fault : Fault} (h : read? cs = .error fault) :
    fault ≠ .tooDeep := by
  have hvalue := readValue_reads (skipBlank cs)
  unfold read? at h
  split at h
  · rename_i hr
    rw [hr] at hvalue
    cases h
    exact hvalue
  · split at h <;> cases h
    exact nofun

/-- In what was read, every object has every name once. -/
theorem readWithin_distinct {limit : Option Nat} {cs : List Char} {j : Json}
    (h : readWithin limit cs = .ok j) : j.Distinct := by
  unfold readWithin at h
  split at h
  · exact read?_distinct h
  · split at h
    · cases h
    · exact read?_distinct h

/-- Without a limit nothing nests too deep. -/
theorem readWithin_none (cs : List Char) : readWithin none cs ≠ .error .tooDeep :=
  fun h => read?_ne h rfl

end Json

end SamScript
