/-
Values when their functions are kept in another way. `Value.map e` puts
`e f` for every function `f` of a value, and all that is done with values
comes to the same before and after: operators, as long as no two functions
become one (`apply_map`), texts, as long as parameters stay (`render_map`),
and JSON. Frames and scopes are taken along name by name.
-/
import SamScript.Proofs.Value.Parts
import SamScript.Value.Render

namespace SamScript

variable {φ ψ : Type}

namespace Value

mutual

/-- A value with its functions kept in another way. -/
def map (e : φ → ψ) : Value φ → Value ψ
  | .int n => .int n
  | .float x => .float x
  | .string s => .string s
  | .array items => .array (mapItems e items)
  | .object fields => .object (mapFields e fields)
  | .function f => .function (e f)
  | .foreign template => .foreign template
  | .undefined => .undefined

def mapItems (e : φ → ψ) : List (Value φ) → List (Value ψ)
  | [] => []
  | v :: rest => map e v :: mapItems e rest

def mapFields (e : φ → ψ) : List (String × Value φ) → List (String × Value ψ)
  | [] => []
  | (name, v) :: rest => (name, map e v) :: mapFields e rest

end

theorem mapItems_eq (e : φ → ψ) (items : List (Value φ)) :
    mapItems e items = items.map (map e) := by
  induction items with
  | nil => rfl
  | cons v rest ih => rw [mapItems, ih, List.map_cons]

mutual

/-- What is nested in a value is taken along with it. -/
theorem parts_map (e : φ → ψ) : ∀ v : Value φ, (v.map e).parts = v.parts.map (map e)
  | .array items => by
    rw [map, parts, parts, List.map_cons, map, partsOfItems_map]
  | .object fields => by
    rw [map, parts, parts, List.map_cons, map, partsOfFields_map]
  | .int _ | .float _ | .string _ | .function _ | .foreign _ | .undefined => rfl

theorem partsOfItems_map (e : φ → ψ) : ∀ items : List (Value φ),
    partsOfItems (mapItems e items) = (partsOfItems items).map (map e)
  | [] => rfl
  | v :: rest => by
    rw [mapItems, partsOfItems, partsOfItems, List.map_append, parts_map, partsOfItems_map]

theorem partsOfFields_map (e : φ → ψ) : ∀ fields : List (String × Value φ),
    partsOfFields (mapFields e fields) = (partsOfFields fields).map (map e)
  | [] => rfl
  | (_, v) :: rest => by
    rw [mapFields, partsOfFields, partsOfFields, List.map_append, parts_map, partsOfFields_map]

end

theorem all_map {e : φ → ψ} {q : Value ψ → Prop} {v : Value φ} :
    (v.map e).All q ↔ v.All fun u => q (u.map e) := by
  rw [All, parts_map, List.forall_mem_map]
  rfl

end Value

/-- A frame with its functions kept in another way. -/
def Frame.map (e : φ → ψ) (frame : Frame φ) : Frame ψ :=
  Value.mapFields e frame

namespace Frame

variable {e : φ → ψ} {frame : Frame φ} {name : String}

@[simp] theorem map_cons {v : Value φ} :
    Frame.map e ((name, v) :: frame) = (name, v.map e) :: Frame.map e frame := rfl

theorem names_map : (Frame.map e frame).names = frame.names := by
  induction frame with
  | nil => rfl
  | cons p rest ih => exact congrArg (p.1 :: ·) ih

theorem all_map {q : Value ψ → Prop} :
    Frame.All q (Frame.map e frame) ↔ Frame.All (fun u => q (u.map e)) frame := by
  induction frame with
  | nil => exact ⟨fun _ _ hp => absurd hp List.not_mem_nil, fun _ _ hp => absurd hp List.not_mem_nil⟩
  | cons p rest ih =>
    rw [map_cons, Frame.All, Frame.All, List.forall_mem_cons, List.forall_mem_cons]
    exact and_congr Value.all_map ih

@[simp] theorem get?_map :
    Bindings.get? name (Frame.map e frame) = (Bindings.get? name frame).map (Value.map e) := by
  induction frame with
  | nil => rfl
  | cons p rest ih =>
    obtain ⟨key, v⟩ := p
    rw [map_cons, Bindings.get?, Bindings.get?]
    split
    · rfl
    · exact ih

/-- Whether a frame binds all names of another one. -/
theorem all_isSome_map (other : Frame φ) :
    ((Frame.map e frame).all fun p => (Bindings.get? p.1 (Frame.map e other)).isSome) =
      frame.all fun p => (Bindings.get? p.1 other).isSome := by
  induction frame with
  | nil => rfl
  | cons p rest ih =>
    rw [map_cons, List.all_cons, List.all_cons, ih, get?_map, Option.isSome_map]

theorem map_insert {v : Value φ} :
    Frame.map e (Bindings.insert name v frame) = Bindings.insert name (v.map e) (Frame.map e frame) := by
  induction frame with
  | nil => rfl
  | cons p rest ih =>
    obtain ⟨key, old⟩ := p
    rw [map_cons, Bindings.insert, Bindings.insert]
    split
    · rfl
    · rw [map_cons, ih]

theorem map_foldl_insert {pairs : List (String × Value φ)} :
    Frame.map e (pairs.foldl (fun frame p => Bindings.insert p.1 p.2 frame) frame) =
      (Frame.map e pairs).foldl (fun frame p => Bindings.insert p.1 p.2 frame)
        (Frame.map e frame) := by
  induction pairs generalizing frame with
  | nil => rfl
  | cons p rest ih => rw [List.foldl_cons, ih, map_insert, map_cons, List.foldl_cons]

/-- The frame of a call is taken along argument by argument. -/
theorem map_ofList_zip {names : List String} {arguments : List (Value φ)} :
    Frame.map e (Bindings.ofList (names.zip arguments)) =
      Bindings.ofList (names.zip (arguments.map (Value.map e))) := by
  have hzip : Frame.map e (names.zip arguments) = names.zip (arguments.map (Value.map e)) := by
    induction names generalizing arguments with
    | nil => rfl
    | cons name rest ih =>
      cases arguments with
      | nil => rfl
      | cons v more => exact congrArg ((name, v.map e) :: ·) ih
  exact hzip ▸ map_foldl_insert

end Frame

-- ================================================================== scopes

namespace Scopes

/-- Scopes with their functions kept in another way. -/
def map (e : φ → ψ) (s : Scopes φ) : Scopes ψ :=
  { inner := s.inner.map (Frame.map e), globals := Frame.map e s.globals }

variable {e : φ → ψ} {s : Scopes φ} {name : String} {v : Value φ}

@[simp] theorem height_map : (s.map e).height = s.height := by
  simp [height, map]

@[simp] theorem globals_map : (s.map e).globals = Frame.map e s.globals := rfl

theorem frames_map : (s.map e).frames = s.frames.map (Frame.map e) := by
  simp [frames, map]

theorem all_map {q : Value ψ → Prop} : (s.map e).All q ↔ s.All fun u => q (u.map e) := by
  rw [all_iff, all_iff, map, List.forall_mem_map]
  exact and_congr (forall₂_congr fun _ _ => Frame.all_map) Frame.all_map

/-- All frames keep their names. -/
theorem names_map (s : Scopes φ) :
    (s.map e).frames.map Bindings.names = s.frames.map Bindings.names := by
  rw [frames_map, List.map_map]
  exact List.map_congr_left fun _ _ => Frame.names_map

theorem map_cutTo {height : Nat} : (s.cutTo height).map e = (s.map e).cutTo height := by
  unfold cutTo
  rw [height_map]
  simp [map]

theorem lookup?_map {fs : List (Frame φ)} :
    lookup? name (fs.map (Frame.map e)) = (lookup? name fs).map (Value.map e) := by
  induction fs with
  | nil => rfl
  | cons frame rest ih =>
    rw [List.map_cons, lookup?, lookup?, Frame.get?_map]
    cases Bindings.get? name frame with
    | none => exact ih
    | some v => rfl

@[simp] theorem resolve?_map : (s.map e).resolve? name = (s.resolve? name).map (Value.map e) := by
  unfold resolve?
  rw [show (s.map e).inner = s.inner.map (Frame.map e) from rfl, lookup?_map, globals_map,
    Frame.get?_map]
  cases lookup? name s.inner <;> rfl

theorem map_declare : (s.declare name v).map e = (s.map e).declare name (v.map e) := by
  unfold declare map
  cases s.inner with
  | nil => simp [Frame.map_insert]
  | cons frame rest => simp [Frame.map_insert]

theorem map_declareGlobal :
    (s.declareGlobal name v).map e = (s.map e).declareGlobal name (v.map e) := by
  simp [declareGlobal, map, Frame.map_insert]

theorem overwrite?_map {fs : List (Frame φ)} :
    overwrite? name (v.map e) (fs.map (Frame.map e)) =
      (overwrite? name v fs).map (List.map (Frame.map e)) := by
  induction fs with
  | nil => rfl
  | cons frame rest ih =>
    rw [List.map_cons, overwrite?, overwrite?, Frame.get?_map, Option.isSome_map]
    split
    · simp [Frame.map_insert]
    · rw [ih]
      cases overwrite? name v rest <;> rfl

@[simp] theorem assign?_map :
    (s.map e).assign? name (v.map e) = (s.assign? name v).map (Scopes.map e) := by
  unfold assign?
  rw [show (s.map e).inner = s.inner.map (Frame.map e) from rfl, overwrite?_map, globals_map,
    Frame.get?_map, Option.isSome_map]
  cases overwrite? name v s.inner with
  | some inner => rfl
  | none =>
    dsimp only [Option.map_none]
    split
    · simp [map, Frame.map_insert]
    · rfl

end Scopes

-- =============================================================== operators

namespace Value

variable {e : φ → ψ} {q : Value φ → Prop} {a b v : Value φ}

@[simp] theorem kind_map : (v.map e).kind = v.kind := by
  cases v <;> rfl

@[simp] theorem number?_map : (v.map e).number? = v.number? := by
  cases v <;> rfl

@[simp] theorem isNumber_map : (v.map e).isNumber = v.isNumber := by
  simp [isNumber]

@[simp] theorem isTruthy_map : (v.map e).isTruthy = v.isTruthy := by
  cases v <;> rfl

/-- Whether functions of which something holds stay apart. -/
def Separates (e : φ → ψ) (q : Value φ → Prop) : Prop :=
  ∀ f g, q (.function f) → q (.function g) → e f = e g → f = g

section

variable [DecidableEq φ] [DecidableEq ψ]

mutual

/-- Values are equal as they were if functions stay apart. -/
theorem equal_map (h : Separates e q) : ∀ {a b : Value φ}, a.All q → b.All q →
    (a.map e).equal (b.map e) = a.equal b
  | .array xs, b, ha, hb => by
    cases b with
    | array ys =>
      rw [map, map, equal, equal]
      exact equalItems_map h (all_array.1 ha).2 (all_array.1 hb).2
    | _ => rfl
  | .object xs, b, ha, hb => by
    cases b with
    | object ys =>
      rw [map, map, equal, equal]
      have hxs : Frame.All q xs := (all_object.1 ha).2
      have hys : Frame.All q ys := (all_object.1 hb).2
      show (((Frame.map e xs).all fun p => (Bindings.get? p.1 (Frame.map e ys)).isSome) &&
        ((Frame.map e ys).all fun p => (Bindings.get? p.1 (Frame.map e xs)).isSome) &&
        equalFields (Frame.map e xs) (Frame.map e ys)) = _
      rw [equalFields_map h hxs hys, Frame.all_isSome_map, Frame.all_isSome_map]
    | _ => rfl
  | .string s, b, _, _ => by cases b <;> rfl
  | .function f, b, ha, hb => by
    cases b with
    | function g =>
      rw [map, map, equal, equal]
      have hfg := h f g (all_function.1 ha) (all_function.1 hb)
      exact decide_eq_decide.2 ⟨hfg, congrArg e⟩
    | _ => rfl
  | .foreign s, b, _, _ => by cases b <;> rfl
  | .undefined, b, _, _ => by cases b <;> rfl
  | .int m, b, _, _ => by
    rw [map, equal, equal, number?_map]
  | .float x, b, _, _ => by
    rw [map, equal, equal, number?_map]

theorem equalItems_map (h : Separates e q) : ∀ {xs ys : List (Value φ)}, (∀ x ∈ xs, x.All q) →
    (∀ y ∈ ys, y.All q) → equalItems (mapItems e xs) (mapItems e ys) = equalItems xs ys
  | [], ys, _, _ => by cases ys <;> rfl
  | x :: xs, [], _, _ => rfl
  | x :: xs, y :: ys, hxs, hys => by
    rw [List.forall_mem_cons] at hxs hys
    rw [mapItems, mapItems, equalItems, equalItems]
    rw [equal_map h hxs.1 hys.1, equalItems_map h hxs.2 hys.2]

theorem equalFields_map (h : Separates e q) : ∀ {xs ys : Frame φ}, Frame.All q xs →
    Frame.All q ys → equalFields (Frame.map e xs) (Frame.map e ys) = equalFields xs ys
  | [], _, _, _ => rfl
  | (name, x) :: xs, ys, hxs, hys => by
    rw [Frame.All, List.forall_mem_cons] at hxs
    rw [Frame.map_cons, equalFields, equalFields, equalFields_map h hxs.2 hys, Frame.get?_map]
    cases hy : Bindings.get? name ys with
    | none => rfl
    | some y => exact congrArg (· && equalFields xs ys) (equal_map h hxs.1 (hys.get? hy))

end

end

theorem map_arithmetic (words : Int64 → Int64 → Int64) (doubles : Float → Float → Float) :
    (arithmetic words doubles a b).map e = arithmetic words doubles (a.map e) (b.map e) := by
  cases a <;> cases b <;> rfl

theorem map_add : (a.add b).map e = (a.map e).add (b.map e) := by
  cases a <;> cases b <;> rfl

theorem map_divide : (a.divide b).map e = (a.map e).divide (b.map e) := by
  unfold divide
  rw [number?_map, number?_map, isTruthy_map]
  split
  · split <;> rfl
  · rfl

/-- The remainder of two doubles is the same, however functions are kept. -/
theorem map_fraction (x y : Float) (nonzero : Bool) :
    (if nonzero then
      match Decimal.remainder? x y with
      | none => .error .noRemainder
      | some r => .ok (.float (if r < 0.0 then r + y.abs else r))
    else .ok .undefined : Except OperatorFault (Value ψ)) =
    (if nonzero then
      match Decimal.remainder? x y with
      | none => .error .noRemainder
      | some r => .ok (.float (if r < 0.0 then r + y.abs else r))
    else .ok .undefined : Except OperatorFault (Value φ)).map (map e) := by
  cases nonzero with
  | false => rfl
  | true => cases Decimal.remainder? x y <;> rfl

theorem remainder_map : (a.map e).remainder (b.map e) = (a.remainder b).map (map e) := by
  cases a <;> cases b <;> try rfl
  case int.int m n =>
    show Except.ok _ = Except.ok _
    rw [apply_ite (map e)]
    rfl
  all_goals exact map_fraction _ _ _

theorem compare_map (op : Operator) :
    (a.map e).compare op (b.map e) = (a.compare op b).map (map e) := by
  unfold compare
  rw [number?_map, number?_map, kind_map, kind_map]
  split
  · split <;> rfl
  · rfl

theorem map_logical (join : Bool → Bool → Bool) :
    (logical join a b).map e = logical join (a.map e) (b.map e) := by
  unfold logical
  rw [isNumber_map, isNumber_map, isTruthy_map, isTruthy_map]
  split <;> rfl

/-- Operators do to mapped values what they did before, if functions stay
apart. -/
theorem apply_map [DecidableEq φ] [DecidableEq ψ] (h : Separates e q) (ha : a.All q)
    (hb : b.All q) (op : Operator) :
    op.apply (a.map e) (b.map e) = (op.apply a b).map (map e) := by
  cases op with
  | add => exact congrArg Except.ok map_add.symm
  | subtract | multiply => exact congrArg Except.ok (map_arithmetic _ _).symm
  | divide => exact congrArg Except.ok map_divide.symm
  | remainder => exact remainder_map
  | equal | notEqual =>
    unfold Operator.apply
    rw [equal_map h ha hb]
    rfl
  | less | greater | lessEqual | greaterEqual => exact compare_map _
  | and | or => exact congrArg Except.ok (map_logical _).symm

-- =================================================================== texts

section

variable [Callable φ] [Callable ψ]

mutual

theorem renderNested_map (h : ∀ f, Callable.parameters (e f) = Callable.parameters f) :
    ∀ v : Value φ, (v.map e).renderNested = v.renderNested
  | .array items => by
    rw [map, renderNested, renderNested, renderItems_map h items]
  | .object fields => by
    rw [map, renderNested, renderNested, renderFields_map h fields]
  | .function f => by
    show renderLeaf (.function (e f)) = renderLeaf (.function f)
    rw [renderLeaf, renderLeaf, h]
  | .int _ | .float _ | .string _ | .foreign _ | .undefined => rfl

theorem renderItems_map (h : ∀ f, Callable.parameters (e f) = Callable.parameters f) :
    ∀ items : List (Value φ), renderItems (mapItems e items) = renderItems items
  | [] => rfl
  | v :: rest => by
    rw [mapItems, renderItems, renderItems, renderNested_map h v, renderItems_map h rest]

theorem renderFields_map (h : ∀ f, Callable.parameters (e f) = Callable.parameters f) :
    ∀ fields : List (String × Value φ), renderFields (mapFields e fields) = renderFields fields
  | [] => rfl
  | (name, v) :: rest => by
    rw [mapFields, renderFields, renderFields, renderNested_map h v, renderFields_map h rest]

end

/-- A value reads the same if its functions have the same parameters. -/
theorem render_map (h : ∀ f, Callable.parameters (e f) = Callable.parameters f) (v : Value φ) :
    (v.map e).render = v.render := by
  cases v with
  | string s => rfl
  | _ => exact renderNested_map h _

end

-- ====================================================== literals and JSON

theorem numberLiteral_map (text : List Char) :
    (Literal.number? text : Except Decimal.Fault (Option (Value ψ))) =
      (Literal.number? text).map (Option.map (map e)) := by
  unfold Literal.number?
  split
  · cases Decimal.readDouble text <;> rfl
  · rcases Decimal.readInteger 10 text with fault | m
    · rfl
    · dsimp only [Except.map]
      split <;> rfl

theorem ofInteger?_map (n : Int) :
    (ofInteger? n : Option (Value ψ)) = (ofInteger? n).map (map e) := by
  unfold ofInteger?
  split
  · rfl
  · cases Decimal.ofInteger? n <;> rfl

mutual

/-- A JSON text has no functions, so it stands for one value. -/
theorem ofJson?_map (j : Json) : (ofJson? j : Option (Value ψ)) = (ofJson? j).map (map e) := by
  cases j with
  | int n => exact ofInteger?_map n
  | array items =>
    rw [ofJson?, ofJson?, ofJsonItems?_map items, Option.map_map, Option.map_map]
    refine congrArg (Option.map · _) (funext fun vs => ?_)
    exact congrArg Value.array (mapItems_eq e vs).symm
  | object members =>
    rw [ofJson?, ofJson?, ofJsonMembers?_map members, Option.map_map, Option.map_map]
    rfl
  | null | bool | float | string => rfl

theorem ofJsonItems?_map (js : List Json) :
    (ofJsonItems? js : Option (List (Value ψ))) = (ofJsonItems? js).map (List.map (map e)) := by
  cases js with
  | nil => rfl
  | cons j rest =>
    rw [ofJsonItems?, ofJsonItems?, ofJson?_map j, ofJsonItems?_map rest]
    cases (ofJson? j : Option (Value φ)) with
    | none => rfl
    | some v => cases (ofJsonItems? rest : Option (List (Value φ))) <;> rfl

theorem ofJsonMembers?_map (ms : List (String × Json)) :
    (ofJsonMembers? ms : Option (Frame ψ)) = (ofJsonMembers? ms).map (Frame.map e) := by
  cases ms with
  | nil => rfl
  | cons m rest =>
    obtain ⟨name, j⟩ := m
    rw [ofJsonMembers?, ofJsonMembers?, ofJson?_map j, ofJsonMembers?_map rest]
    cases (ofJson? j : Option (Value φ)) with
    | none => rfl
    | some v => cases (ofJsonMembers? rest : Option (Frame φ)) <;> rfl

end

end Value

end SamScript
