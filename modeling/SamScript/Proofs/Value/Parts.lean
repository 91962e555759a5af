/-
Values and what is in them. `parts` lists a value with everything nested in
it; `All q` says that something holds of each of them, and frames and scopes
carry it along: what was declared or assigned is what is looked up later.
Neither the operators nor JSON texts make functions, so what comes of them
has whatever all other values have (`Plain.all_apply`, `Plain.all_ofJson?`).
-/
import SamScript.Proofs.Json.Members
import SamScript.Proofs.Scope.Frames
import SamScript.Value.Json
import SamScript.Value.Literal
import SamScript.Value.Operator

namespace SamScript

variable {φ : Type}

namespace Value

mutual

/-- A value and everything nested in it. -/
def parts : Value φ → List (Value φ)
  | .array items => .array items :: partsOfItems items
  | .object fields => .object fields :: partsOfFields fields
  | v => [v]

def partsOfItems : List (Value φ) → List (Value φ)
  | [] => []
  | v :: rest => parts v ++ partsOfItems rest

def partsOfFields : List (String × Value φ) → List (Value φ)
  | [] => []
  | (_, v) :: rest => parts v ++ partsOfFields rest

end

/-- Whether something holds of a value and of everything nested in it. -/
def All (q : Value φ → Prop) (v : Value φ) : Prop :=
  ∀ u ∈ v.parts, q u

variable {q : Value φ → Prop}

theorem mem_partsOfItems {items : List (Value φ)} {u : Value φ} :
    u ∈ partsOfItems items ↔ ∃ v ∈ items, u ∈ v.parts := by
  induction items with
  | nil => simp [partsOfItems]
  | cons v rest ih => simp [partsOfItems, ih]

theorem mem_partsOfFields {fields : List (String × Value φ)} {u : Value φ} :
    u ∈ partsOfFields fields ↔ ∃ p ∈ fields, u ∈ p.2.parts := by
  induction fields with
  | nil => simp [partsOfFields]
  | cons p rest ih =>
    obtain ⟨name, v⟩ := p
    simp [partsOfFields, ih]

theorem all_array {items : List (Value φ)} :
    (array items).All q ↔ q (.array items) ∧ ∀ v ∈ items, v.All q := by
  simp only [All, parts, List.forall_mem_cons, mem_partsOfItems]
  exact and_congr_right fun _ =>
    ⟨fun h v hv u hu => h u ⟨v, hv, hu⟩, fun h u ⟨v, hv, hu⟩ => h v hv u hu⟩

theorem all_object {fields : List (String × Value φ)} :
    (object fields).All q ↔ q (.object fields) ∧ ∀ p ∈ fields, p.2.All q := by
  simp only [All, parts, List.forall_mem_cons, mem_partsOfFields]
  exact and_congr_right fun _ =>
    ⟨fun h p hp u hu => h u ⟨p, hp, hu⟩, fun h u ⟨p, hp, hu⟩ => h p hp u hu⟩

theorem all_function {f : φ} : (function f).All q ↔ q (.function f) := by
  simp [All, parts]

theorem all_foreign {template : String} : (foreign template).All q ↔ q (.foreign template) := by
  simp [All, parts]

end Value

-- ================================================================ bindings

/-- Whether something holds of all values of a frame. -/
def Frame.All (q : Value φ → Prop) (frame : Frame φ) : Prop :=
  ∀ p ∈ frame, p.2.All q

namespace Frame.All

variable {q : Value φ → Prop} {frame : Frame φ}

theorem get? {name : String} {v : Value φ} (h : Frame.All q frame)
    (hv : Bindings.get? name frame = some v) : v.All q := by
  induction frame with
  | nil => cases hv
  | cons p rest ih =>
    obtain ⟨key, old⟩ := p
    rw [Frame.All, List.forall_mem_cons] at h
    rw [Bindings.get?] at hv
    split at hv
    · cases hv
      exact h.1
    · exact ih h.2 hv

theorem insert (h : Frame.All q frame) (name : String) {v : Value φ} (hv : v.All q) :
    Frame.All q (Bindings.insert name v frame) := by
  induction frame with
  | nil => exact List.forall_mem_singleton.2 hv
  | cons p rest ih =>
    obtain ⟨key, old⟩ := p
    rw [Frame.All, List.forall_mem_cons] at h
    rw [Bindings.insert]
    split
    · exact List.forall_mem_cons.2 ⟨hv, h.2⟩
    · exact List.forall_mem_cons.2 ⟨h.1, ih h.2⟩

theorem foldl_insert {pairs : List (String × Value φ)} (h : Frame.All q frame)
    (hpairs : ∀ p ∈ pairs, p.2.All q) :
    Frame.All q (pairs.foldl (fun frame p => Bindings.insert p.1 p.2 frame) frame) := by
  induction pairs generalizing frame with
  | nil => exact h
  | cons p rest ih =>
    rw [List.forall_mem_cons] at hpairs
    exact ih (h.insert p.1 hpairs.1) hpairs.2

/-- The frame of a call binds its arguments. -/
theorem ofList_zip {names : List String} {arguments : List (Value φ)}
    (h : ∀ v ∈ arguments, v.All q) : Frame.All q (Bindings.ofList (names.zip arguments)) := by
  have hnone : Frame.All q ([] : Frame φ) := fun p hp => nomatch hp
  exact hnone.foldl_insert fun p hp => h p.2 (List.of_mem_zip hp).2

end Frame.All

-- ================================================================== scopes

namespace Scopes

/-- Whether something holds of all values of all frames. -/
def All (q : Value φ → Prop) (s : Scopes φ) : Prop :=
  ∀ frame ∈ s.stack, Frame.All q frame

variable {q : Value φ → Prop} {s t : Scopes φ}

theorem all_iff : s.All q ↔ (∀ frame ∈ s.inner, Frame.All q frame) ∧ Frame.All q s.globals := by
  rw [All, stack, List.forall_mem_append, List.forall_mem_singleton]

theorem All.lookup? {name : String} {v : Value φ} {fs : List (Frame φ)}
    (h : ∀ frame ∈ fs, Frame.All q frame) (hv : Scopes.lookup? name fs = some v) : v.All q := by
  induction fs with
  | nil => cases hv
  | cons frame rest ih =>
    rw [List.forall_mem_cons] at h
    rw [Scopes.lookup?] at hv
    split at hv
    · rename_i u hu
      cases hv
      exact h.1.get? hu
    · exact ih h.2 hv

/-- What is looked up is a value of a frame. -/
theorem All.resolve? {name : String} {v : Value φ} (h : s.All q) (hv : s.resolve? name = some v) :
    v.All q := by
  rw [all_iff] at h
  unfold Scopes.resolve? at hv
  split at hv
  · rename_i u hu
    cases hv
    exact All.lookup? h.1 hu
  · exact h.2.get? hv

theorem All.push (h : s.All q) {frame : Frame φ} (hframe : Frame.All q frame) :
    (s.push frame).All q :=
  List.forall_mem_cons.2 ⟨hframe, h⟩

theorem All.cutTo (h : s.All q) (height : Nat) : (s.cutTo height).All q := by
  rw [all_iff] at h ⊢
  exact ⟨fun frame hf => h.1 frame (List.mem_of_mem_drop hf), h.2⟩

theorem All.declare (h : s.All q) (name : String) {v : Value φ} (hv : v.All q) :
    (s.declare name v).All q := by
  rw [All, stack_eq, below_declare, current_declare]
  rw [All, stack_eq, List.forall_mem_cons] at h
  exact List.forall_mem_cons.2 ⟨h.1.insert name hv, h.2⟩

theorem All.declareGlobal (h : s.All q) (name : String) {v : Value φ} (hv : v.All q) :
    (s.declareGlobal name v).All q := by
  rw [all_iff] at h ⊢
  exact ⟨h.1, h.2.insert name hv⟩

theorem All.overwrite? {name : String} {v : Value φ} {fs gs : List (Frame φ)}
    (h : ∀ frame ∈ fs, Frame.All q frame) (hv : v.All q)
    (ho : Scopes.overwrite? name v fs = some gs) : ∀ frame ∈ gs, Frame.All q frame := by
  induction fs generalizing gs with
  | nil => cases ho
  | cons frame rest ih =>
    rw [List.forall_mem_cons] at h
    rw [Scopes.overwrite?] at ho
    split at ho
    · cases ho
      exact List.forall_mem_cons.2 ⟨h.1.insert name hv, h.2⟩
    · obtain ⟨rest', hr, rfl⟩ := Option.map_eq_some_iff.1 ho
      exact List.forall_mem_cons.2 ⟨h.1, ih h.2 hr⟩

theorem All.assign? (h : s.All q) {name : String} {v : Value φ} (hv : v.All q)
    (ha : s.assign? name v = some t) : t.All q := by
  rw [all_iff] at h ⊢
  unfold Scopes.assign? at ha
  split at ha
  · rename_i inner ho
    cases ha
    exact ⟨All.overwrite? h.1 hv ho, h.2⟩
  · split at ha
    · cases ha
      exact ⟨h.1, h.2.insert name hv⟩
    · cases ha

end Scopes

-- =============================================================== operators

/-- Whether something holds of every value that is neither a function nor a
foreign function; an object has every name once. -/
structure Value.Plain (q : Value φ → Prop) : Prop where
  int : ∀ n, q (.int n)
  float : ∀ x, q (.float x)
  string : ∀ s, q (.string s)
  array : ∀ items, q (.array items)
  object : ∀ fields, (Bindings.names fields).Nodup → q (.object fields)
  undefined : q .undefined

namespace Value.Plain

variable {q : Value φ → Prop} (h : Value.Plain q)

include h

theorem all_int (n : Int64) : (Value.int n).All q := by
  simp [All, parts, h.int]

theorem all_float (x : Float) : (Value.float x).All q := by
  simp [All, parts, h.float]

theorem all_string (s : String) : (Value.string s).All q := by
  simp [All, parts, h.string]

theorem all_undefined : (Value.undefined : Value φ).All q := by
  simp [All, parts, h.undefined]

theorem all_ofBool (b : Bool) : (Value.ofBool b).All q :=
  h.all_int _

theorem all_arithmetic (words : Int64 → Int64 → Int64) (doubles : Float → Float → Float)
    (a b : Value φ) : (arithmetic words doubles a b).All q := by
  unfold arithmetic
  split
  · exact h.all_int _
  · split
    · exact h.all_float _
    · exact h.all_undefined

theorem all_add (a b : Value φ) : (a.add b).All q := by
  unfold add
  split
  · exact h.all_string _
  · exact h.all_arithmetic _ _ _ _

theorem all_divide (a b : Value φ) : (a.divide b).All q := by
  unfold divide
  split
  · split
    · exact h.all_float _
    · exact h.all_undefined
  · exact h.all_undefined

theorem all_remainder {a b v : Value φ} (hv : a.remainder b = .ok v) : v.All q := by
  unfold remainder at hv
  split at hv
  · cases hv
    split
    · exact h.all_undefined
    · exact h.all_int _
  · split at hv
    · split at hv
      · split at hv
        · cases hv
        · cases hv
          exact h.all_float _
      · cases hv
        exact h.all_undefined
    · cases hv
      exact h.all_undefined

theorem all_compare {op : Operator} {a b v : Value φ} (hv : a.compare op b = .ok v) :
    v.All q := by
  unfold compare at hv
  split at hv
  · split at hv
    · cases hv
    · cases hv
      exact h.all_ofBool _
  · cases hv

theorem all_logical (join : Bool → Bool → Bool) (a b : Value φ) : (logical join a b).All q := by
  unfold logical
  split
  · exact h.all_ofBool _
  · exact h.all_undefined

/-- No operator makes a function. -/
theorem all_apply [DecidableEq φ] {op : Operator} {a b v : Value φ} (hv : op.apply a b = .ok v) :
    v.All q := by
  cases op with
  | add => exact Except.ok.inj hv ▸ h.all_add a b
  | subtract | multiply => exact Except.ok.inj hv ▸ h.all_arithmetic _ _ a b
  | divide => exact Except.ok.inj hv ▸ h.all_divide a b
  | remainder => exact h.all_remainder hv
  | equal | notEqual => exact Except.ok.inj hv ▸ h.all_ofBool _
  | less | greater | lessEqual | greaterEqual => exact h.all_compare hv
  | and | or => exact Except.ok.inj hv ▸ h.all_logical _ a b

end Value.Plain

-- ====================================================== literals and JSON

namespace Value.Plain

variable {q : Value φ → Prop}

theorem all_ofInteger? (h : Value.Plain q) {n : Int} {v : Value φ} (hv : ofInteger? n = some v) : v.All q := by
  unfold ofInteger? at hv
  split at hv
  · cases hv
    exact h.all_int _
  · obtain ⟨x, -, rfl⟩ := Option.map_eq_some_iff.1 hv
    exact h.all_float x

/-- A number literal is a number. -/
theorem all_number? (h : Value.Plain q) {text : List Char} {v : Value φ}
    (hv : Literal.number? text = .ok (some v)) : v.All q := by
  unfold Literal.number? at hv
  split at hv
  · rcases hd : Decimal.readDouble text with fault | x
    · rw [hd] at hv
      cases hv
    · rw [hd] at hv
      cases hv
      exact h.all_float x
  · rcases hd : Decimal.readInteger 10 text with fault | m
    · rw [hd] at hv
      cases hv
    · rw [hd] at hv
      dsimp only [Except.map] at hv
      split at hv
      · cases hv
        exact h.all_int _
      · cases hv

theorem names_ofJsonMembers? {ms : List (String × Json)} {fields : List (String × Value φ)}
    (h : ofJsonMembers? ms = some fields) : Bindings.names fields = Bindings.names ms := by
  induction ms generalizing fields with
  | nil =>
    cases h
    rfl
  | cons m rest ih =>
    obtain ⟨name, j⟩ := m
    rw [ofJsonMembers?] at h
    split at h
    · cases h
    · obtain ⟨more, hmore, rfl⟩ := Option.map_eq_some_iff.1 h
      exact congrArg (name :: ·) (ih hmore)

mutual

/-- No JSON text spells a function. -/
theorem all_ofJson? (h : Value.Plain q) (j : Json) (hj : j.Distinct) {v : Value φ}
    (hv : ofJson? j = some v) : v.All q := by
  cases j with
  | null =>
    cases hv
    exact h.all_undefined
  | bool b =>
    cases hv
    exact h.all_ofBool b
  | int n => exact h.all_ofInteger? hv
  | float x =>
    cases hv
    exact h.all_float x
  | string s =>
    cases hv
    exact h.all_string s
  | array items =>
    rw [ofJson?] at hv
    obtain ⟨vs, hvs, rfl⟩ := Option.map_eq_some_iff.1 hv
    cases hj with
    | array hitems => exact all_array.2 ⟨h.array vs, all_ofJsonItems? h items hitems hvs⟩
  | object members =>
    rw [ofJson?] at hv
    obtain ⟨fields, hfields, rfl⟩ := Option.map_eq_some_iff.1 hv
    cases hj with
    | object hnames hmembers =>
      rw [← names_ofJsonMembers? hfields] at hnames
      exact all_object.2 ⟨h.object fields hnames, all_ofJsonMembers? h members hmembers hfields⟩

theorem all_ofJsonItems? (h : Value.Plain q) (js : List Json) (hjs : ∀ j ∈ js, j.Distinct)
    {vs : List (Value φ)} (hvs : ofJsonItems? js = some vs) : ∀ v ∈ vs, v.All q := by
  cases js with
  | nil =>
    cases hvs
    intro v hv
    cases hv
  | cons j rest =>
    rw [List.forall_mem_cons] at hjs
    rw [ofJsonItems?] at hvs
    split at hvs
    · cases hvs
    · rename_i v hv
      obtain ⟨more, hmore, rfl⟩ := Option.map_eq_some_iff.1 hvs
      exact List.forall_mem_cons.2
        ⟨all_ofJson? h j hjs.1 hv, all_ofJsonItems? h rest hjs.2 hmore⟩

theorem all_ofJsonMembers? (h : Value.Plain q) (ms : List (String × Json))
    (hms : ∀ m ∈ ms, m.2.Distinct) {fields : List (String × Value φ)}
    (hfields : ofJsonMembers? ms = some fields) : ∀ p ∈ fields, p.2.All q := by
  cases ms with
  | nil =>
    cases hfields
    intro p hp
    cases hp
  | cons m rest =>
    obtain ⟨name, j⟩ := m
    rw [List.forall_mem_cons] at hms
    rw [ofJsonMembers?] at hfields
    split at hfields
    · cases hfields
    · rename_i v hv
      obtain ⟨more, hmore, rfl⟩ := Option.map_eq_some_iff.1 hfields
      exact List.forall_mem_cons.2
        ⟨all_ofJson? h j hms.1 hv, all_ofJsonMembers? h rest hms.2 hmore⟩

end

end Value.Plain

end SamScript
