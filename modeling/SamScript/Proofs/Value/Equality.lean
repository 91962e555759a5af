/-
The laws of equality. Two doubles are equal if they are worth the same
(`Double.beq_iff`), so equality of doubles is symmetric and transitive, and
only a NaN differs from itself; no word is promoted to a NaN. Two objects,
no name twice in the first, are equal if under every name both have equal
values or both have none (`equal_object_iff`): that says the same of both, so
the laws carry over from the parts of values to values, by induction over
their nesting (`Value.nested`), and the order of names does not matter.
-/
import Mathlib
import SamScript.Proofs.Value.Parts

namespace SamScript

open Float.Model (UnpackedFloat Format)

-- ================================================================= doubles

namespace Double

/-- What a double is worth: zero whichever its sign, a NaN nothing. -/
def worth? : UnpackedFloat → Option UnpackedFloat
  | .notANumber => none
  | .zero _ => some (.zero .positive)
  | x => some x

theorem compare_sign {s t : UnpackedFloat.Sign} : compare s t = .eq ↔ s = t := by
  cases s <;> cases t <;> simp [compare]

theorem unpacked_beq_iff {x y : UnpackedFloat} :
    x.beq y = true ↔ ∃ k, worth? x = some k ∧ worth? y = some k := by
  rcases x with _ | _ | _ | ⟨_ | _, m, e, hm⟩ <;>
    rcases y with _ | _ | _ | ⟨_ | _, m', e', hm'⟩ <;>
    simp [UnpackedFloat.beq, UnpackedFloat.compare, worth?, compare_sign, Ordering.then_eq_eq]
  all_goals grind

theorem beq_iff {x y : Float} :
    (x == y) = true ↔ ∃ k, worth? x.toModel.unpack = some k ∧ worth? y.toModel.unpack = some k :=
  unpacked_beq_iff

theorem beq_comm (x y : Float) : (x == y) = (y == x) := by
  rw [Bool.eq_iff_iff, beq_iff, beq_iff]
  exact exists_congr fun _ => and_comm

theorem beq_trans {x y z : Float} (hxy : (x == y) = true) (hyz : (y == z) = true) :
    (x == z) = true := by
  rw [beq_iff] at *
  obtain ⟨k, hx, hy⟩ := hxy
  obtain ⟨k', hy', hz⟩ := hyz
  cases hy.symm.trans hy'
  exact ⟨k, hx, hz⟩

theorem beq_self_iff {x : Float} : (x == x) = true ↔ x.isNaN = false := by
  rw [beq_iff]
  change _ ↔ x.toModel.unpack.isNaN = false
  cases x.toModel.unpack <;> simp [worth?, UnpackedFloat.isNaN]

-- ============================================================== promotion

/-- Bits with an exponent other than the last one, or with no mantissa, are
no NaN. -/
theorem isNaN_unpack_packComponents {s : UnpackedFloat.Sign}
    {e : BitVec Format.binary64.exponentBits}
    {m : BitVec Format.binary64.mantissaBitsWithoutImplicit} (h : e ≠ -1#_ ∨ m = 0#_) :
    (UnpackedFloat.unpack .binary64 (UnpackedFloat.packComponents .binary64 s e m)).isNaN =
      false := by
  simp only [UnpackedFloat.unpack, UnpackedFloat.unpackExponent_packComponents,
    UnpackedFloat.unpackMantissa_packComponents]
  split
  · rename_i he
    rw [if_pos (h.resolve_left fun hn => hn he)]
    rfl
  · split
    · split <;> rfl
    · rfl

theorem isNaN_unpack_pack {f : UnpackedFloat} (h : f.isNaN = false) :
    (UnpackedFloat.unpack .binary64 (UnpackedFloat.pack .binary64 f)).isNaN = false := by
  cases f with
  | notANumber => cases h
  | infinity s | zero s => exact isNaN_unpack_packComponents (.inr rfl)
  | finite s m e hm =>
    simp only [UnpackedFloat.pack]
    split
    · exact isNaN_unpack_packComponents (.inr rfl)
    · rename_i hbound
      split
      · refine isNaN_unpack_packComponents (.inl fun he => ?_)
        have hlast := congrArg BitVec.toNat he
        simp at hlast hbound
        omega
      · exact isNaN_unpack_packComponents (.inl (by decide))

theorem isNaN_round (s : UnpackedFloat.Sign) (m : Nat) (e : Int) :
    (UnpackedFloat.round .binary64 s m e).isNaN = false := by
  simp only [UnpackedFloat.round, UnpackedFloat.roundWithAccuracy]
  split <;> rfl

theorem isNaN_ofNat (n : Nat) : (UnpackedFloat.ofNat .binary64 n).isNaN = false := by
  simp only [UnpackedFloat.ofNat, UnpackedFloat.ofInt, UnpackedFloat.normalize]
  split
  · exact isNaN_round _ _ _
  · rfl
  · exact isNaN_round _ _ _

theorem isNaN_toFloat (n : UInt64) : n.toFloat.isNaN = false :=
  isNaN_unpack_pack (isNaN_ofNat n.toNat)

theorem isNaN_neg {x : Float} (h : x.isNaN = false) : (-x).isNaN = false := by
  change x.toModel.unpack.isNaN = false at h
  refine isNaN_unpack_pack ?_
  cases hx : x.toModel.unpack with
  | notANumber =>
    rw [hx] at h
    cases h
  | infinity | zero | finite => rfl

/-- Every word is a number as a double. -/
theorem isNaN_promote (n : Int64) : (Value.promote n).isNaN = false := by
  unfold Value.promote
  split
  · exact isNaN_neg (isNaN_toFloat _)
  · exact isNaN_toFloat _

end Double

-- ================================================================= lookups

namespace Lookup

variable {α β γ : Type} {r : α → β → Prop} {x? : Option α} {y? : Option β} {z? : Option γ}

theorem rel_flip {s : β → α → Prop} (h : Option.Rel r x? y?)
    (hs : ∀ {x y}, x? = some x → y? = some y → r x y → s y x) : Option.Rel s y? x? := by
  cases h with
  | some hr => exact .some (hs rfl rfl hr)
  | none => exact .none

theorem rel_comp {s : β → γ → Prop} {t : α → γ → Prop} (h : Option.Rel r x? y?)
    (h' : Option.Rel s y? z?)
    (ht : ∀ {x y z}, x? = some x → y? = some y → z? = some z → r x y → s y z → t x z) :
    Option.Rel t x? z? := by
  cases h with
  | some hr => cases h' with | some hs => exact .some (ht rfl rfl rfl hr hs)
  | none => cases h' with | none => exact .none

theorem rel_congr {x'? : Option β} {s : α → γ → Prop} {t : β → γ → Prop}
    (h : Option.Rel r x? x'?)
    (hst : ∀ {x x' z}, x? = some x → r x x' → (t x' z ↔ s x z)) :
    Option.Rel t x'? z? ↔ Option.Rel s x? z? := by
  cases h with
  | some hr => cases z? <;> simp [hst rfl hr]
  | none => cases z? <;> simp

theorem rel_self_iff {r : α → α → Prop} :
    Option.Rel r x? x? ↔ ∀ x, x? = some x → r x x := by
  cases x? <;> simp

theorem exists_of_rel (h : Option.Rel r x? y?) {y : β} (hy : y? = some y) :
    ∃ x, x? = some x ∧ r x y := by
  cases h with
  | some hr => exact ⟨_, rfl, Option.some.inj hy ▸ hr⟩
  | none => cases hy

theorem rel_getElem? {xs : List α} {ys : List β} (h : List.Forall₂ r xs ys) (i : Nat) :
    Option.Rel r xs[i]? ys[i]? := by
  induction h generalizing i with
  | nil => exact .none
  | cons hxy _ ih =>
    cases i with
    | zero => exact .some hxy
    | succ i => exact ih i

end Lookup

-- ================================================================ bindings

namespace Bindings

variable {α β : Type}

theorem mem_of_get? {name : String} {v : α} {b : Bindings α} (h : b.get? name = some v) :
    (name, v) ∈ b := by
  induction b with
  | nil => cases h
  | cons p rest ih =>
    obtain ⟨key, old⟩ := p
    rw [get?] at h
    split at h
    · rename_i hkey
      cases h
      exact hkey ▸ List.mem_cons_self
    · exact List.mem_cons_of_mem _ (ih h)

theorem get?_of_mem {name : String} {v : α} {b : Bindings α} (hb : b.names.Nodup)
    (h : (name, v) ∈ b) : b.get? name = some v := by
  induction b with
  | nil => cases h
  | cons p rest ih =>
    obtain ⟨key, old⟩ := p
    obtain ⟨hkey, hrest⟩ := List.nodup_cons.1 hb
    rw [get?]
    rcases List.mem_cons.1 h with h | h
    · cases h
      exact if_pos rfl
    · have hname : name ∈ names rest := List.mem_map_of_mem h
      rw [if_neg fun he : key = name => hkey (he ▸ hname), ih hrest h]

/-- With no name twice, the order does not matter. -/
theorem get?_perm {b c : Bindings α} (hp : b.Perm c) (hb : b.names.Nodup) (name : String) :
    b.get? name = c.get? name := by
  have hc : c.names.Nodup := (hp.map Prod.fst).nodup_iff.1 hb
  refine Option.ext fun v => ⟨fun h => ?_, fun h => ?_⟩
  · exact get?_of_mem hc (hp.mem_iff.1 (mem_of_get? h))
  · exact get?_of_mem hb (hp.mem_iff.2 (mem_of_get? h))

/-- Values that are related in their order are related by their names. -/
theorem rel_get? {r : α → β → Prop} {b : Bindings α} {c : Bindings β} (hn : b.names = c.names)
    (h : List.Forall₂ r (b.map Prod.snd) (c.map Prod.snd)) (name : String) :
    Option.Rel r (b.get? name) (c.get? name) := by
  induction b generalizing c with
  | nil =>
    cases c with
    | nil => exact .none
    | cons => cases hn
  | cons p rest ih =>
    cases c with
    | nil => cases hn
    | cons q more =>
      obtain ⟨key, v⟩ := p
      obtain ⟨key', w⟩ := q
      obtain ⟨rfl, hnames⟩ := List.cons.inj hn
      obtain ⟨hv, hrest⟩ := List.forall₂_cons.1 h
      rw [get?, get?]
      split
      · exact .some hv
      · exact ih hnames hrest

end Bindings

namespace Value

variable {φ : Type}

-- =============================================================== induction

/-- Induction over the nesting of values. -/
@[elab_as_elim]
theorem nested {motive : Value φ → Prop} (int : ∀ n, motive (.int n))
    (float : ∀ x, motive (.float x)) (string : ∀ s, motive (.string s))
    (array : ∀ items, (∀ v ∈ items, motive v) → motive (.array items))
    (object : ∀ fields, (∀ p ∈ fields, motive p.2) → motive (.object fields))
    (function : ∀ f, motive (.function f)) (foreign : ∀ template, motive (.foreign template))
    (undefined : motive .undefined) (v : Value φ) : motive v :=
  @Value.rec φ motive (fun items => ∀ v ∈ items, motive v)
    (fun fields => ∀ p ∈ fields, motive p.2) (fun p => motive p.2)
    int float string array object function foreign undefined
    (List.forall_mem_nil _) (fun _ _ hv hrest => List.forall_mem_cons.2 ⟨hv, hrest⟩)
    (List.forall_mem_nil _) (fun _ _ hp hrest => List.forall_mem_cons.2 ⟨hp, hrest⟩)
    (fun _ _ hv => hv) v

/-- No object in a value has a name twice. -/
def Distinct (v : Value φ) : Prop :=
  v.All fun u => ∀ fields, u = .object fields → (Bindings.names fields).Nodup

theorem distinct_array {items : List (Value φ)} :
    (array items).Distinct ↔ ∀ v ∈ items, v.Distinct := by
  simp [Distinct, all_array]

theorem distinct_object {fields : List (String × Value φ)} :
    (object fields).Distinct ↔
      (Bindings.names fields).Nodup ∧ ∀ p ∈ fields, p.2.Distinct := by
  simp [Distinct, all_object]

theorem Distinct.get? {fields : List (String × Value φ)} (h : (object fields).Distinct)
    {name : String} {v : Value φ} (hv : Bindings.get? name fields = some v) : v.Distinct :=
  (distinct_object.1 h).2 _ (Bindings.mem_of_get? hv)

-- ======================================================== what equality says

section

variable [DecidableEq φ]

theorem equalItems_iff {xs ys : List (Value φ)} :
    equalItems xs ys = true ↔
      ∀ i : Nat, Option.Rel (fun x y => x.equal y = true) xs[i]? ys[i]? := by
  induction xs generalizing ys with
  | nil =>
    cases ys with
    | nil => exact iff_of_true rfl fun _ => .none
    | cons y ys => exact iff_of_false Bool.false_ne_true fun h => nomatch h 0
  | cons x xs ih =>
    cases ys with
    | nil => exact iff_of_false Bool.false_ne_true fun h => nomatch h 0
    | cons y ys =>
      rw [equalItems, Bool.and_eq_true, ih]
      refine ⟨fun h i => ?_, fun h => ⟨?_, fun i => h (i + 1)⟩⟩
      · cases i with
        | zero => exact .some h.1
        | succ i => exact h.2 i
      · simpa using h 0

theorem equalFields_iff {xs ys : List (String × Value φ)} :
    equalFields xs ys = true ↔
      ∀ p ∈ xs, ∃ y, Bindings.get? p.1 ys = some y ∧ p.2.equal y = true := by
  induction xs with
  | nil => simp [equalFields]
  | cons p xs ih =>
    obtain ⟨name, x⟩ := p
    rw [equalFields, Bool.and_eq_true, ih, List.forall_mem_cons]
    cases Bindings.get? name ys <;> simp

theorem equal_number_iff {a b : Value φ} {x : Float} (h : a.number? = some x) :
    a.equal b = true ↔ ∃ y, b.number? = some y ∧ (x == y) = true := by
  cases a <;> cases h <;> rw [equal] <;> cases b.number? <;> simp

theorem equal_string_iff {s : String} {b : Value φ} :
    (string s).equal b = true ↔ b = .string s := by
  cases b with
  | string t =>
    change decide (s = t) = true ↔ _
    simp [eq_comm]
  | _ => exact iff_of_false Bool.false_ne_true (by simp)

theorem equal_function_iff {f : φ} {b : Value φ} :
    (function f).equal b = true ↔ b = .function f := by
  cases b with
  | function g =>
    change decide (f = g) = true ↔ _
    simp [eq_comm]
  | _ => exact iff_of_false Bool.false_ne_true (by simp)

theorem equal_foreign_iff {template : String} {b : Value φ} :
    (foreign template).equal b = true ↔ b = .foreign template := by
  cases b with
  | foreign t =>
    change decide (template = t) = true ↔ _
    simp [eq_comm]
  | _ => exact iff_of_false Bool.false_ne_true (by simp)

theorem equal_undefined_iff {b : Value φ} :
    (undefined : Value φ).equal b = true ↔ b = .undefined := by
  cases b with
  | undefined => exact iff_of_true rfl rfl
  | _ => exact iff_of_false Bool.false_ne_true (by simp)

/-- Arrays are equal if at every place both have equal items or both have
none. -/
theorem equal_array_iff {xs : List (Value φ)} {b : Value φ} :
    (array xs).equal b = true ↔ ∃ ys, b = .array ys ∧
      ∀ i : Nat, Option.Rel (fun x y => x.equal y = true) xs[i]? ys[i]? := by
  cases b with
  | array ys =>
    change equalItems xs ys = true ↔ _
    simp [equalItems_iff]
  | _ => exact iff_of_false Bool.false_ne_true (by simp)

/-- Objects are equal if under every name both have equal values or both
have none. -/
theorem equal_object_iff {xs : List (String × Value φ)} {b : Value φ}
    (hxs : (Bindings.names xs).Nodup) :
    (object xs).equal b = true ↔ ∃ ys, b = .object ys ∧
      ∀ name, Option.Rel (fun x y => x.equal y = true) (Bindings.get? name xs)
        (Bindings.get? name ys) := by
  cases b with
  | object ys =>
    change (xs.all (fun p => (Bindings.get? p.1 ys).isSome) &&
      ys.all (fun p => (Bindings.get? p.1 xs).isSome) && equalFields xs ys) = true ↔ _
    simp only [Bool.and_eq_true, List.all_eq_true, equalFields_iff, object.injEq,
      exists_eq_left']
    constructor
    · rintro ⟨⟨-, hback⟩, hfields⟩ name
      cases hx : Bindings.get? name xs with
      | some x =>
        obtain ⟨y, hy, hxy⟩ := hfields _ (Bindings.mem_of_get? hx)
        exact hy ▸ .some hxy
      | none =>
        cases hy : Bindings.get? name ys with
        | none => exact .none
        | some y => exact absurd (hback _ (Bindings.mem_of_get? hy)) (by simp [hx])
    · intro h
      have hfields : ∀ p ∈ xs, ∃ y, Bindings.get? p.1 ys = some y ∧ p.2.equal y = true := by
        intro p hp
        have hrel := h p.1
        rw [Bindings.get?_of_mem hxs hp] at hrel
        cases hy : Bindings.get? p.1 ys with
        | none => simp [hy] at hrel
        | some y => exact ⟨y, rfl, by simpa [hy] using hrel⟩
      refine ⟨⟨fun p hp => ?_, fun q hq => ?_⟩, hfields⟩
      · obtain ⟨y, hy, -⟩ := hfields p hp
        exact hy ▸ rfl
      · cases hx : Bindings.get? q.1 xs with
        | some x => rfl
        | none =>
          have hrel := h q.1
          cases hy : Bindings.get? q.1 ys with
          | some y => simp [hx, hy] at hrel
          | none => exact absurd (List.mem_map_of_mem hq) ((Bindings.get?_eq_none_iff _ _).1 hy)
  | _ => exact iff_of_false Bool.false_ne_true (by simp)

-- =================================================================== laws

theorem equal_symm {a b : Value φ} (ha : a.Distinct) (hb : b.Distinct)
    (h : a.equal b = true) : b.equal a = true := by
  induction a using nested generalizing b with
  | int n =>
    obtain ⟨y, hy, hxy⟩ := (equal_number_iff rfl).1 h
    exact (equal_number_iff hy).2 ⟨_, rfl, Double.beq_comm _ y ▸ hxy⟩
  | float x =>
    obtain ⟨y, hy, hxy⟩ := (equal_number_iff rfl).1 h
    exact (equal_number_iff hy).2 ⟨_, rfl, Double.beq_comm _ y ▸ hxy⟩
  | string s => exact equal_string_iff.1 h ▸ h
  | array xs ih =>
    obtain ⟨ys, rfl, hrel⟩ := equal_array_iff.1 h
    refine equal_array_iff.2 ⟨xs, rfl, fun i => Lookup.rel_flip (hrel i) fun hx hy => ?_⟩
    have hmem := List.mem_of_getElem? hx
    exact ih _ hmem (distinct_array.1 ha _ hmem) (distinct_array.1 hb _ (List.mem_of_getElem? hy))
  | object xs ih =>
    obtain ⟨ys, rfl, hrel⟩ := (equal_object_iff (distinct_object.1 ha).1).1 h
    refine (equal_object_iff (distinct_object.1 hb).1).2 ⟨xs, rfl, fun name =>
      Lookup.rel_flip (hrel name) fun hx hy => ?_⟩
    exact ih _ (Bindings.mem_of_get? hx) (ha.get? hx) (hb.get? hy)
  | function f => exact equal_function_iff.1 h ▸ h
  | foreign template => exact equal_foreign_iff.1 h ▸ h
  | undefined => exact equal_undefined_iff.1 h ▸ h

theorem equal_comm {a b : Value φ} (ha : a.Distinct) (hb : b.Distinct) :
    a.equal b = b.equal a :=
  Bool.eq_iff_iff.2 ⟨equal_symm ha hb, equal_symm hb ha⟩

theorem equal_trans {a b c : Value φ} (ha : a.Distinct) (hb : b.Distinct)
    (h : a.equal b = true) (h' : b.equal c = true) : a.equal c = true := by
  induction a using nested generalizing b c with
  | int n =>
    obtain ⟨y, hy, hxy⟩ := (equal_number_iff rfl).1 h
    obtain ⟨z, hz, hyz⟩ := (equal_number_iff hy).1 h'
    exact (equal_number_iff rfl).2 ⟨z, hz, Double.beq_trans hxy hyz⟩
  | float x =>
    obtain ⟨y, hy, hxy⟩ := (equal_number_iff rfl).1 h
    obtain ⟨z, hz, hyz⟩ := (equal_number_iff hy).1 h'
    exact (equal_number_iff rfl).2 ⟨z, hz, Double.beq_trans hxy hyz⟩
  | string s => exact equal_string_iff.1 h ▸ h'
  | array xs ih =>
    obtain ⟨ys, rfl, hrel⟩ := equal_array_iff.1 h
    obtain ⟨zs, rfl, hrel'⟩ := equal_array_iff.1 h'
    refine equal_array_iff.2 ⟨zs, rfl, fun i => Lookup.rel_comp (hrel i) (hrel' i) ?_⟩
    intro x y z hx hy _
    exact ih x (List.mem_of_getElem? hx) (distinct_array.1 ha x (List.mem_of_getElem? hx))
      (distinct_array.1 hb y (List.mem_of_getElem? hy))
  | object xs ih =>
    have hxs := (distinct_object.1 ha).1
    obtain ⟨ys, rfl, hrel⟩ := (equal_object_iff hxs).1 h
    obtain ⟨zs, rfl, hrel'⟩ := (equal_object_iff (distinct_object.1 hb).1).1 h'
    refine (equal_object_iff hxs).2 ⟨zs, rfl, fun name =>
      Lookup.rel_comp (hrel name) (hrel' name) ?_⟩
    intro x y z hx hy _
    exact ih _ (Bindings.mem_of_get? hx) (ha.get? hx) (hb.get? hy)
  | function f => exact equal_function_iff.1 h ▸ h'
  | foreign template => exact equal_foreign_iff.1 h ▸ h'
  | undefined => exact equal_undefined_iff.1 h ▸ h'

/-- Of all that is in a value, only a NaN keeps it from being equal to
itself. -/
theorem equal_self_iff {a : Value φ} (ha : a.Distinct) :
    a.equal a = true ↔ a.All fun u => ∀ x, u = .float x → x.isNaN = false := by
  induction a using nested with
  | int n =>
    refine iff_of_true ?_ (by simp [All, parts])
    exact (equal_number_iff rfl).2 ⟨_, rfl, Double.beq_self_iff.2 (Double.isNaN_promote n)⟩
  | float x =>
    have hall : (float x : Value φ).All (fun u => ∀ x, u = .float x → x.isNaN = false) ↔
        x.isNaN = false := by
      simp [All, parts]
    rw [equal_number_iff rfl, hall, ← Double.beq_self_iff]
    constructor
    · rintro ⟨y, hy, h⟩
      cases hy
      exact h
    · exact fun h => ⟨x, rfl, h⟩
  | string s => simp [equal_string_iff, All, parts]
  | array xs ih =>
    have hself : (array xs).equal (.array xs) = true ↔ ∀ x ∈ xs, x.equal x = true := by
      simp only [equal_array_iff, array.injEq, exists_eq_left', Lookup.rel_self_iff]
      exact ⟨fun h x hx => (List.mem_iff_getElem?.1 hx).elim fun i hi => h i x hi,
        fun h i x hx => h x (List.mem_of_getElem? hx)⟩
    have hnot : ∀ x, array xs = float x → x.isNaN = false := by
      intro x hx
      cases hx
    rw [hself, all_array, and_iff_right hnot]
    exact forall₂_congr fun x hx => ih x hx (distinct_array.1 ha x hx)
  | object xs ih =>
    obtain ⟨hxs, hparts⟩ := distinct_object.1 ha
    have hself : (object xs).equal (.object xs) = true ↔ ∀ p ∈ xs, p.2.equal p.2 = true := by
      simp only [equal_object_iff hxs, object.injEq, exists_eq_left', Lookup.rel_self_iff]
      exact ⟨fun h p hp => h p.1 p.2 (Bindings.get?_of_mem hxs hp),
        fun h name x hx => h _ (Bindings.mem_of_get? hx)⟩
    have hnot : ∀ x, object xs = float x → x.isNaN = false := by
      intro x hx
      cases hx
    rw [hself, all_object, and_iff_right hnot]
    exact forall₂_congr fun p hp => ih p hp (hparts p hp)
  | function f => simp [equal_function_iff, All, parts]
  | foreign template => simp [equal_foreign_iff, All, parts]
  | undefined => simp [equal_undefined_iff, All, parts]

-- =================================================================== order

omit [DecidableEq φ]

/-- The second value is the first one with the fields of its objects, at any
depth, in another order. -/
inductive Reordered : Value φ → Value φ → Prop where
  | same (v : Value φ) : Reordered v v
  | array {xs ys : List (Value φ)} : List.Forall₂ Reordered xs ys →
      Reordered (.array xs) (.array ys)
  | object {xs zs ys : List (String × Value φ)} : xs.Perm zs →
      Bindings.names zs = Bindings.names ys →
      List.Forall₂ Reordered (zs.map Prod.snd) (ys.map Prod.snd) →
      Reordered (.object xs) (.object ys)

theorem Reordered.of_array {xs : List (Value φ)} {b : Value φ} (h : Reordered (.array xs) b) :
    ∃ ys, b = .array ys ∧ ∀ i : Nat, Option.Rel Reordered xs[i]? ys[i]? := by
  cases h with
  | same => exact ⟨xs, rfl, fun i => Lookup.rel_self_iff.2 fun x _ => .same x⟩
  | @array _ ys hitems => exact ⟨ys, rfl, Lookup.rel_getElem? hitems⟩

theorem Reordered.of_object {xs : List (String × Value φ)} {b : Value φ}
    (h : Reordered (.object xs) b) (hxs : (Bindings.names xs).Nodup) :
    ∃ ys, b = .object ys ∧ (Bindings.names ys).Nodup ∧
      ∀ name, Option.Rel Reordered (Bindings.get? name xs) (Bindings.get? name ys) := by
  cases h with
  | same => exact ⟨xs, rfl, hxs, fun name => Lookup.rel_self_iff.2 fun x _ => .same x⟩
  | @object _ zs ys hperm hnames hfields =>
    refine ⟨ys, rfl, ?_, fun name => ?_⟩
    · exact hnames ▸ (hperm.map Prod.fst).nodup_iff.1 hxs
    · rw [Bindings.get?_perm hperm hxs]
      exact Bindings.rel_get? hnames hfields name

theorem Reordered.distinct {a b : Value φ} (h : Reordered a b) (ha : a.Distinct) :
    b.Distinct := by
  induction a using nested generalizing b with
  | array xs ih =>
    obtain ⟨ys, rfl, hrel⟩ := h.of_array
    refine distinct_array.2 fun y hy => ?_
    obtain ⟨i, hi⟩ := List.mem_iff_getElem?.1 hy
    obtain ⟨x, hx, hxy⟩ := Lookup.exists_of_rel (hrel i) hi
    exact ih x (List.mem_of_getElem? hx) hxy (distinct_array.1 ha x (List.mem_of_getElem? hx))
  | object xs ih =>
    obtain ⟨ys, rfl, hys, hrel⟩ := h.of_object (distinct_object.1 ha).1
    refine distinct_object.2 ⟨hys, fun p hp => ?_⟩
    obtain ⟨x, hx, hxy⟩ := Lookup.exists_of_rel (hrel p.1) (Bindings.get?_of_mem hys hp)
    exact ih _ (Bindings.mem_of_get? hx) hxy (ha.get? hx)
  | _ =>
    cases h
    exact ha

variable [DecidableEq φ]

/-- In whatever order a value is given, it is equal to the same values. -/
theorem Reordered.equal_left {a a' : Value φ} (h : Reordered a a') (ha : a.Distinct)
    (b : Value φ) : a'.equal b = a.equal b := by
  induction a using nested generalizing a' b with
  | array xs ih =>
    obtain ⟨xs', rfl, hrel⟩ := h.of_array
    rw [Bool.eq_iff_iff, equal_array_iff, equal_array_iff]
    refine exists_congr fun ys => and_congr_right fun _ => forall_congr' fun i => ?_
    refine Lookup.rel_congr (hrel i) fun {x x' y} hx hxx => ?_
    have hmem := List.mem_of_getElem? hx
    rw [ih x hmem hxx (distinct_array.1 ha x hmem) y]
  | object xs ih =>
    have hxs := (distinct_object.1 ha).1
    obtain ⟨xs', rfl, hxs', hrel⟩ := h.of_object hxs
    rw [Bool.eq_iff_iff, equal_object_iff hxs, equal_object_iff hxs']
    refine exists_congr fun ys => and_congr_right fun _ => forall_congr' fun name => ?_
    refine Lookup.rel_congr (hrel name) fun {x x' y} hx hxx => ?_
    rw [ih _ (Bindings.mem_of_get? hx) hxx (ha.get? hx) y]
  | _ =>
    cases h
    rfl

end

end Value

-- ============================================================ the theorem

/-- Equality of values with no name twice in an object is symmetric and
transitive, only a NaN somewhere in a value keeps it from being equal to
itself, and the order of names in the objects of either operand, however deep
they lie, does not matter. -/
theorem equality_is_an_equivalence_but_for_nan {φ : Type} [DecidableEq φ] :
    (∀ a b : Value φ, a.Distinct → b.Distinct → a.equal b = b.equal a) ∧
    (∀ a b c : Value φ, a.Distinct → b.Distinct → c.Distinct →
      a.equal b = true → b.equal c = true → a.equal c = true) ∧
    (∀ a : Value φ, a.Distinct →
      (a.equal a = true ↔ ∀ x, .float x ∈ a.parts → x.isNaN = false)) ∧
    (∀ a a' b b' : Value φ, a.Distinct → b.Distinct → a.Reordered a' → b.Reordered b' →
      a'.Distinct ∧ b'.Distinct ∧ a'.equal b' = a.equal b) := by
  refine ⟨fun a b ha hb => Value.equal_comm ha hb, fun a b c ha hb _ => Value.equal_trans ha hb,
    fun a ha => ?_, fun a a' b b' ha hb haa hbb => ⟨haa.distinct ha, hbb.distinct hb, ?_⟩⟩
  · rw [Value.equal_self_iff ha]
    exact ⟨fun h x hx => h _ hx x rfl, fun h u hu x hux => h x (hux ▸ hu)⟩
  · calc a'.equal b'
      _ = a.equal b' := haa.equal_left ha b'
      _ = b'.equal a := Value.equal_comm ha (hbb.distinct hb)
      _ = b.equal a := hbb.equal_left hb a
      _ = a.equal b := Value.equal_comm hb ha

/-- Three objects of a whole number and an array, with fractions for the
whole numbers in the second and another order in the third. -/
theorem equality_is_an_equivalence_but_for_nan_reordered :
    let a : Value := .object [("x", .int 1), ("y", .array [.float 2.5, .undefined])]
    let b : Value := .object [("x", .float 1.0), ("y", .array [.float 2.5, .undefined])]
    let c : Value := .object [("y", .array [.float 2.5, .undefined]), ("x", .int 1)]
    let nan : Value := .array [.float (0.0 / 0.0)]
    b.equal a = a.equal b ∧ a.equal c = true ∧ a.equal a = true ∧ ¬nan.equal nan = true ∧
      c.equal b = a.equal b := by
  intro a b c nan
  have ha : a.Distinct := by
    simp [a, Value.Distinct, Value.All, Value.parts, Value.partsOfFields, Value.partsOfItems,
      Bindings.names]
  have hb : b.Distinct := by
    simp [b, Value.Distinct, Value.All, Value.parts, Value.partsOfFields, Value.partsOfItems,
      Bindings.names]
  have hnan : nan.Distinct := by
    simp [nan, Value.Distinct, Value.All, Value.parts, Value.partsOfItems]
  have hac : a.Reordered c := .object (.swap _ _ _) rfl (.cons (.same _) (.cons (.same _) .nil))
  have hab : a.equal b = true := by decide +kernel
  have hbc : b.equal c = true := by decide +kernel
  obtain ⟨hsymm, htrans, hself, horder⟩ :=
    @equality_is_an_equivalence_but_for_nan FunctionRef _
  have hc := (horder a c b b ha hb hac (.same b)).1
  refine ⟨hsymm b a hb ha, htrans a b c ha hb hc hab hbc, htrans a b a ha hb ha hab ?_, ?_,
    (horder a c b b ha hb hac (.same b)).2.2⟩
  · rw [hsymm b a hb ha]
    exact hab
  · rw [hself nan hnan]
    intro h
    have hfalse := h (0.0 / 0.0) (by simp [nan, Value.parts, Value.partsOfItems])
    exact absurd hfalse (by decide +kernel)

end SamScript
