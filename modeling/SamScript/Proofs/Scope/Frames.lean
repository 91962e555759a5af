/-
The scope stack as a list of frames, the innermost first: what putting a
frame on, declaring, assigning and cutting back do to it. Declaring touches
the current frame alone; assigning changes no name of any frame; cutting
back to the height before a frame was put on leaves what is below the
current frame.
-/
import SamScript.Scope.Basic

namespace SamScript

variable {φ : Type}

namespace Scopes

/-- The live frames, the innermost first. -/
def stack (s : Scopes φ) : List (Frame φ) :=
  s.inner ++ [s.globals]

/-- The live frames but the current one, the innermost first. -/
def below (s : Scopes φ) : List (Frame φ) :=
  s.stack.tail

theorem frames_eq (s : Scopes φ) : s.frames = s.stack.reverse := by
  simp [frames, stack]

theorem frames_dropLast (s : Scopes φ) : s.frames.dropLast = s.below.reverse := by
  rw [frames_eq, List.dropLast_reverse]
  rfl

theorem length_stack (s : Scopes φ) : s.stack.length = s.height := by
  simp [stack, height]

theorem length_below (s : Scopes φ) : s.below.length = s.inner.length := by
  simp [below, stack]

theorem stack_eq (s : Scopes φ) : s.stack = s.current :: s.below := by
  rcases s with ⟨_ | ⟨frame, rest⟩, globals⟩ <;> rfl

/-- The frames tell the whole of a scope stack. -/
theorem eq_of_stack_eq {s t : Scopes φ} (h : s.stack = t.stack) : s = t := by
  rcases s with ⟨inner, globals⟩
  rcases t with ⟨inner', globals'⟩
  obtain ⟨hi, hg⟩ := List.append_inj' h rfl
  cases hg
  cases hi
  rfl

-- ==================================================== putting on, cutting

theorem below_push (s : Scopes φ) (frame : Frame φ) : (s.push frame).below = s.stack := rfl

/-- One frame alone is not taken off. -/
theorem pop?_eq_none_iff (s : Scopes φ) : s.pop? = none ↔ s.height = 1 := by
  rcases s with ⟨_ | ⟨frame, rest⟩, globals⟩ <;> simp [pop?, height]

theorem stack_of_pop? {s t : Scopes φ} {frame : Frame φ} (h : s.pop? = some (frame, t)) :
    s.stack = frame :: t.stack := by
  rcases s with ⟨_ | ⟨top, rest⟩, globals⟩
  · cases h
  · cases h
    rfl

/-- Cutting back takes frames off the top. -/
theorem stack_cut (s : Scopes φ) {height : Nat} (h : 0 < height) :
    (s.cutTo height).stack = s.stack.drop (s.height - height) := by
  have hle : s.height - height ≤ s.inner.length := by
    rw [Scopes.height]
    omega
  exact (List.drop_append_of_le_length hle).symm

/-- Cutting back leaves the outermost frames. -/
theorem frames_cutTo (s : Scopes φ) {height : Nat} (h : 0 < height) :
    (s.cutTo height).frames = s.frames.take height := by
  rw [frames_eq, frames_eq, stack_cut s h, List.reverse_drop, length_stack]
  by_cases hle : height ≤ s.height
  · rw [Nat.sub_sub_self hle]
  · rw [List.take_of_length_le, List.take_of_length_le]
    · rw [List.length_reverse, length_stack]
      omega
    · rw [List.length_reverse, length_stack]
      omega

/-- What is left when a stack with one frame too many is cut back. -/
theorem stack_cutTo {s t : Scopes φ} (h : t.below.length = s.height) :
    (t.cutTo s.height).stack = t.below := by
  rcases t with ⟨_ | ⟨frame, rest⟩, globals⟩
  · exact absurd h (by simp [below, stack, height])
  · rw [length_below, height, List.length_cons] at h
    have hd : rest.length + 1 - s.inner.length = 1 := by omega
    simp [cutTo, height, stack, below, hd]

-- =============================================================== declare

theorem below_declare (s : Scopes φ) (name : String) (value : Value φ) :
    (s.declare name value).below = s.below := by
  rcases s with ⟨_ | ⟨frame, rest⟩, globals⟩ <;> rfl

theorem stack_declare (s : Scopes φ) (name : String) (value : Value φ) :
    (s.declare name value).stack = s.current.insert name value :: s.below := by
  rcases s with ⟨_ | ⟨frame, rest⟩, globals⟩ <;> rfl

theorem current_declare (s : Scopes φ) (name : String) (value : Value φ) :
    (s.declare name value).current = s.current.insert name value := by
  rcases s with ⟨_ | ⟨frame, rest⟩, globals⟩ <;> rfl

end Scopes

/-- Binding a name takes no name away and moves none. -/
theorem Bindings.names_prefix_insert {α : Type} (name : String) (value : α) (b : Bindings α) :
    b.names <+: (b.insert name value).names := by
  by_cases h : name ∈ b.names
  · exact (names_insert_of_mem value h).symm ▸ List.prefix_rfl
  · rw [names_insert_of_not_mem value h]
    exact List.prefix_append _ _

theorem Bindings.mem_names_of_get? {α : Type} {name : String} {b : Bindings α}
    (h : (b.get? name).isSome) : name ∈ b.names := by
  refine Decidable.of_not_not fun hn => ?_
  rw [(get?_eq_none_iff name b).2 hn] at h
  cases h

namespace Scopes

-- =============================================================== resolve

theorem lookup?_append (name : String) (fs gs : List (Frame φ)) :
    lookup? name (fs ++ gs) = (lookup? name fs).or (lookup? name gs) := by
  induction fs with
  | nil => rfl
  | cons frame rest ih =>
    rw [List.cons_append, lookup?, lookup?, ih]
    cases frame.get? name <;> rfl

theorem resolve?_eq (s : Scopes φ) (name : String) : s.resolve? name = lookup? name s.stack := by
  rw [stack, lookup?_append, resolve?]
  cases lookup? name s.inner with
  | some v => rfl
  | none =>
    rw [Option.none_or, lookup?]
    cases s.globals.get? name <;> rfl

/-- A name is bound nowhere, or there is an innermost frame that binds it. -/
theorem exists_binder (name : String) (fs : List (Frame φ)) :
    (∀ frame ∈ fs, frame.get? name = none) ∨
      ∃ inner frame outer v, fs = inner ++ frame :: outer ∧
        (∀ other ∈ inner, other.get? name = none) ∧ frame.get? name = some v := by
  induction fs with
  | nil => exact .inl fun frame hframe => absurd hframe List.not_mem_nil
  | cons frame rest ih =>
    cases hv : frame.get? name with
    | some v => exact .inr ⟨[], frame, rest, v, rfl, fun _ h => absurd h List.not_mem_nil, hv⟩
    | none =>
      rcases ih with hnone | ⟨inner, binder, outer, v, rfl, hinner, hbinder⟩
      · exact .inl (List.forall_mem_cons.2 ⟨hv, hnone⟩)
      · exact .inr ⟨frame :: inner, binder, outer, v, rfl, List.forall_mem_cons.2 ⟨hv, hinner⟩,
          hbinder⟩

theorem lookup?_eq_none {name : String} {fs : List (Frame φ)}
    (h : ∀ frame ∈ fs, frame.get? name = none) : lookup? name fs = none := by
  induction fs with
  | nil => rfl
  | cons frame rest ih =>
    rw [List.forall_mem_cons] at h
    rw [lookup?, h.1]
    exact ih h.2

theorem lookup?_binder {name : String} {inner outer : List (Frame φ)} {frame : Frame φ}
    {v : Value φ} (hinner : ∀ other ∈ inner, other.get? name = none)
    (hv : frame.get? name = some v) : lookup? name (inner ++ frame :: outer) = some v := by
  rw [lookup?_append, lookup?_eq_none hinner, lookup?, hv]
  rfl

-- ================================================================ assign

theorem overwrite?_eq_none {name : String} {value : Value φ} {fs : List (Frame φ)}
    (h : ∀ frame ∈ fs, frame.get? name = none) : overwrite? name value fs = none := by
  induction fs with
  | nil => rfl
  | cons frame rest ih =>
    rw [List.forall_mem_cons] at h
    rw [overwrite?, h.1, ih h.2]
    rfl

theorem overwrite?_binder {name : String} {value v : Value φ} {inner outer : List (Frame φ)}
    {frame : Frame φ} (hinner : ∀ other ∈ inner, other.get? name = none)
    (hv : frame.get? name = some v) :
    overwrite? name value (inner ++ frame :: outer) =
      some (inner ++ frame.insert name value :: outer) := by
  induction inner with
  | nil => rw [List.nil_append, overwrite?, hv]; rfl
  | cons other rest ih =>
    rw [List.forall_mem_cons] at hinner
    rw [List.cons_append, overwrite?, hinner.1, ih hinner.2]
    rfl

theorem stack_assign? (s : Scopes φ) (name : String) (value : Value φ) :
    (s.assign? name value).map stack = overwrite? name value s.stack := by
  rcases s with ⟨inner, globals⟩
  have hall : overwrite? name value (inner ++ [globals]) =
      ((overwrite? name value inner).map (· ++ [globals])).or
        (if (globals.get? name).isSome then some (inner ++ [globals.insert name value])
          else none) := by
    induction inner with
    | nil => simp [overwrite?]
    | cons frame rest ih =>
      rw [List.cons_append, overwrite?, overwrite?, ih]
      split
      · rfl
      · cases overwrite? name value rest <;> split <;> rfl
  rw [stack, hall, assign?]
  cases overwrite? name value inner with
  | some fs => rfl
  | none => cases (globals.get? name).isSome <;> simp [stack]

theorem names_overwrite? {name : String} {value : Value φ} {fs gs : List (Frame φ)}
    (h : overwrite? name value fs = some gs) : gs.map Bindings.names = fs.map Bindings.names := by
  induction fs generalizing gs with
  | nil => cases h
  | cons frame rest ih =>
    rw [overwrite?] at h
    split at h
    · rename_i hb
      cases h
      rw [List.map_cons, List.map_cons,
        Bindings.names_insert_of_mem value (Bindings.mem_names_of_get? hb)]
    · obtain ⟨rest', hr, rfl⟩ := Option.map_eq_some_iff.1 h
      rw [List.map_cons, List.map_cons, ih hr]

/-- Assigning changes a value and no name. -/
theorem names_assign? {name : String} {value : Value φ} {s t : Scopes φ}
    (h : s.assign? name value = some t) :
    t.stack.map Bindings.names = s.stack.map Bindings.names := by
  unfold assign? at h
  split at h
  · rename_i inner ho
    cases h
    simp [stack, names_overwrite? ho]
  · split at h
    · rename_i hb
      cases h
      simp [stack, Bindings.names_insert_of_mem value (Bindings.mem_names_of_get? hb)]
    · cases h

end Scopes

end SamScript
