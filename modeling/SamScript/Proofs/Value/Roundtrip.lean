/-
Values that are written as JSON and read back. Whole numbers, texts, the
undefined value, arrays and objects come back as they were, at any depth and
in their order (`portable_values_survive_json`). Fractions are left out: what
their digits spell is a matter of doubles. A function is written as its text
and comes back as a text, so it is left out as well.
-/
import SamScript.Eval.Foreign
import SamScript.Proofs.Json.Nesting

namespace SamScript

namespace Value

variable {φ : Type}

/-- A value that JSON can hold: whole numbers, texts, the undefined value, and
arrays and objects of them, no name twice in one object. -/
inductive Portable : Value φ → Prop where
  | int (n : Int64) : Portable (.int n)
  | string (s : String) : Portable (.string s)
  | undefined : Portable .undefined
  | array {items : List (Value φ)} : (∀ v ∈ items, Portable v) → Portable (.array items)
  | object {fields : List (String × Value φ)} : (Bindings.names fields).Nodup →
      (∀ m ∈ fields, Portable m.2) → Portable (.object fields)

theorem ofInteger?_toInt (n : Int64) : ofInteger? n.toInt = some (.int n : Value φ) := by
  rw [ofInteger?, if_pos ⟨n.minValue_le_toInt, n.toInt_le⟩, Int64.ofInt_toInt]

-- =============================================================== to JSON

section

variable [Callable φ]

theorem toJsonItems_eq (items : List (Value φ)) : toJsonItems items = items.map toJson := by
  induction items with
  | nil => rfl
  | cons v items ih => rw [toJsonItems, ih, List.map_cons]

theorem toJsonFields_eq (fields : List (String × Value φ)) :
    toJsonFields fields = fields.map fun m => (m.1, toJson m.2) := by
  induction fields with
  | nil => rfl
  | cons m fields ih => rw [toJsonFields, ih, List.map_cons]

theorem names_toJsonFields (fields : List (String × Value φ)) :
    Bindings.names (toJsonFields fields) = Bindings.names fields := by
  rw [toJsonFields_eq, Bindings.names, List.map_map]
  rfl

/-- A word has far fewer digits than the reader takes. -/
theorem length_toDigits_word (n : Int64) :
    (Nat.toDigits 10 n.toInt.natAbs).length ≤ Decimal.digitLimit := by
  have hlow := n.le_toInt
  have hhigh := n.toInt_lt
  refine (Nat.length_toDigits_le_iff (by decide) (by decide)).2 ?_
  calc n.toInt.natAbs < 10 ^ 19 := by omega
    _ ≤ 10 ^ Decimal.digitLimit := Nat.pow_le_pow_right (by decide) (by decide)

/-- What is portable as a value is portable as JSON. -/
theorem Portable.toJson {v : Value φ} (h : v.Portable) : v.toJson.Portable := by
  induction h with
  | int n => exact .int (length_toDigits_word n)
  | string s => exact .string s
  | undefined => exact .null
  | array _ ih =>
    refine .array fun j hj => ?_
    rw [toJsonItems_eq] at hj
    obtain ⟨v, hv, rfl⟩ := List.mem_map.1 hj
    exact ih v hv
  | object hnames _ ih =>
    refine .object ?_ fun m hm => ?_
    · rwa [names_toJsonFields]
    · rw [toJsonFields_eq] at hm
      obtain ⟨field, hfield, rfl⟩ := List.mem_map.1 hm
      exact ih field hfield

-- ============================================================== and back

theorem ofJsonItems?_toJson {items : List (Value φ)}
    (h : ∀ v ∈ items, ofJson? v.toJson = some v) :
    ofJsonItems? (toJsonItems items) = some items := by
  induction items with
  | nil => rfl
  | cons v items ih =>
    obtain ⟨hv, hitems⟩ := List.forall_mem_cons.1 h
    rw [toJsonItems, ofJsonItems?, hv, ih hitems]
    rfl

theorem ofJsonMembers?_toJson {fields : List (String × Value φ)}
    (h : ∀ m ∈ fields, ofJson? m.2.toJson = some m.2) :
    ofJsonMembers? (toJsonFields fields) = some fields := by
  induction fields with
  | nil => rfl
  | cons m fields ih =>
    obtain ⟨hm, hfields⟩ := List.forall_mem_cons.1 h
    rw [toJsonFields, ofJsonMembers?, hm, ih hfields]
    rfl

/-- A portable value is told from its JSON. -/
theorem ofJson?_toJson {v : Value φ} (h : v.Portable) : ofJson? v.toJson = some v := by
  induction h with
  | int n => exact ofInteger?_toInt n
  | string s => rfl
  | undefined => rfl
  | array _ ih => rw [Value.toJson, ofJson?, ofJsonItems?_toJson ih, Option.map_some]
  | object _ _ ih => rw [Value.toJson, ofJson?, ofJsonMembers?_toJson ih, Option.map_some]

end

end Value

-- ================================================================= texts

variable {φ : Type} [Callable φ]

/-- Of a value that a program echoes, its caller gets that value. -/
theorem Foreign.outputValue_write {v : Value φ} (hv : v.Portable) {bounds : Bounds}
    (hlimit : ∀ n ∈ bounds.json, v.toJson.depth ≤ n) (command : String) :
    Foreign.outputValue bounds command (Json.write v.toJson) = .ok v := by
  rw [Foreign.outputValue, Json.readWithin_write hv.toJson hlimit]
  dsimp only
  rw [Value.ofJson?_toJson hv]

/-- A portable value, written as JSON in one line and read back, is the same
value: kinds, the order of items and the order of names included. The reader
may be limited, as long as the value does not nest deeper. -/
theorem portable_values_survive_json {v : Value φ} (hv : v.Portable) {limit : Option Nat}
    (hlimit : ∀ n ∈ limit, v.toJson.depth ≤ n) :
    (Json.readWithin limit (Json.write v.toJson).toList).map Value.ofJson? = .ok (some v) := by
  rw [Json.readWithin_write hv.toJson hlimit]
  exact congrArg Except.ok (Value.ofJson?_toJson hv)

/-- Both signs, a text with quotes and a character of two code units, and an
object inside an array inside an object. -/
theorem portable_values_survive_json_nested :
    (Json.readWithin (some 900) (Json.write (Value.toJson (.object [("", .undefined), ("é", .array
        [.int (-9223372036854775808), .string "\"\n😀", .object [("b", .int 0), ("a", .int 7)]])] :
        Value))).toList).map Value.ofJson? =
      .ok (some (.object [("", .undefined), ("é", .array
        [.int (-9223372036854775808), .string "\"\n😀", .object [("b", .int 0), ("a", .int 7)]])] :
        Value)) := by
  refine portable_values_survive_json (.object (by decide) ?_) fun n hn => ?_
  · intro m hm
    simp only [List.mem_cons, List.not_mem_nil, or_false] at hm
    rcases hm with rfl | rfl
    · exact .undefined
    · refine .array fun v hv => ?_
      simp only [List.mem_cons, List.not_mem_nil, or_false] at hv
      rcases hv with rfl | rfl | rfl
      · exact .int _
      · exact .string _
      · refine .object (by decide) fun m hm => ?_
        simp only [List.mem_cons, List.not_mem_nil, or_false] at hm
        rcases hm with rfl | rfl
        · exact .int _
        · exact .int _
  · obtain rfl : 900 = n := Option.some.inj hn
    decide +kernel

end SamScript
