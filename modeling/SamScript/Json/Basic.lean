/-
JSON values. Whole numbers and fractions stay apart, the members of an
object keep the order in which their names first came, and a name occurs
once.
-/
namespace SamScript

/-- A list of names with their values in the order in which the names first
came. -/
abbrev Bindings (α : Type) := List (String × α)

namespace Bindings

variable {α : Type}

/-- The value of a name. -/
def get? (name : String) : Bindings α → Option α
  | [] => none
  | (key, value) :: rest => if key = name then some value else get? name rest

/-- Binds a name: a name already bound keeps its place and takes the new
value, a new one comes last. -/
def insert (name : String) (value : α) : Bindings α → Bindings α
  | [] => [(name, value)]
  | (key, old) :: rest =>
    if key = name then (key, value) :: rest else (key, old) :: insert name value rest

/-- The bound names in order. -/
def names (bindings : Bindings α) : List String :=
  bindings.map Prod.fst

/-- Binds names one after the other. -/
def ofList (pairs : List (String × α)) : Bindings α :=
  pairs.foldl (fun bindings (name, value) => bindings.insert name value) []

theorem get?_insert_self (name : String) (value : α) (b : Bindings α) :
    (b.insert name value).get? name = some value := by
  induction b with
  | nil => simp [insert, get?]
  | cons p rest ih =>
    obtain ⟨key, old⟩ := p
    by_cases h : key = name <;> simp [insert, get?, h, ih]

theorem get?_insert_of_ne {name other : String} (h : name ≠ other) (value : α) (b : Bindings α) :
    (b.insert name value).get? other = b.get? other := by
  induction b with
  | nil => simp [insert, get?, h]
  | cons p rest ih =>
    obtain ⟨key, old⟩ := p
    by_cases hk : key = name
    · subst hk
      simp [insert, get?, h]
    · by_cases ho : key = other
      · subst ho
        simp [insert, get?, hk]
      · simp [insert, get?, hk, ho, ih]

theorem get?_eq_none_iff (name : String) (b : Bindings α) :
    b.get? name = none ↔ name ∉ b.names := by
  induction b with
  | nil => simp [get?, names]
  | cons p rest ih =>
    obtain ⟨key, old⟩ := p
    by_cases h : key = name
    · simp [get?, names, h]
    · simp only [get?, h, if_false, ih, names, List.map_cons, List.mem_cons, not_or]
      exact ⟨fun hr => ⟨fun e => h e.symm, hr⟩, fun hr => hr.2⟩

/-- Binding a name that is bound changes no name and no place. -/
theorem names_insert_of_mem {name : String} (value : α) {b : Bindings α} (h : name ∈ b.names) :
    (b.insert name value).names = b.names := by
  induction b with
  | nil => simp [names] at h
  | cons p rest ih =>
    obtain ⟨key, old⟩ := p
    by_cases hk : key = name
    · simp [insert, names, hk]
    · have : name ∈ names rest := by
        simp only [names, List.map_cons, List.mem_cons] at h ⊢
        rcases h with h | h
        · exact absurd h.symm hk
        · exact h
      simpa [insert, names, hk] using ih this

/-- Binding a new name puts it last. -/
theorem names_insert_of_not_mem {name : String} (value : α) {b : Bindings α}
    (h : name ∉ b.names) : (b.insert name value).names = b.names ++ [name] := by
  induction b with
  | nil => simp [insert, names]
  | cons p rest ih =>
    obtain ⟨key, old⟩ := p
    simp only [names, List.map_cons, List.mem_cons, not_or] at h
    have hk : ¬key = name := fun e => h.1 e.symm
    simpa [insert, names, hk] using ih h.2

end Bindings

/-- A JSON value. -/
inductive Json where
  | null
  | bool (b : Bool)
  | int (n : Int)
  | float (x : Float)
  | string (s : String)
  | array (items : List Json)
  | object (members : List (String × Json))
  deriving Inhabited

/-- The value of a member of an object. -/
def Json.member? (name : String) : Json → Option Json
  | .object members => Bindings.get? name members
  | _ => none

end SamScript
