/-
Which documents give settings. A mapping describes settings if its keys are
names of settings and every value is one that its setting takes
(`Describes`); what a setting takes is said once for each of them
(`IsProgram`, `IsRoot`, `IsDepth`, `IsEnvironment`) and once for all how it
comes by its value (`Sets`) or does not (`Refuses`). Reading the settings one
after the other ends in one of four ways (`Outcome`); which one, the document
alone decides as long as no two of its keys are one text.
-/
import SamScript.Config.Load

namespace SamScript

-- ======================================================= what is written out

namespace Document

/-- Whether a whole number is a value or lies somewhere in one. -/
inductive Holds (n : Int) : Document → Prop where
  | int : Holds n (.int n)
  | item {items : List Document} {d : Document} : d ∈ items → Holds n d → Holds n (.list items)
  | part {items : List Document} {d : Document} : d ∈ items → Holds n d → Holds n (.tuple items)
  | member {items : List Document} {d : Document} : d ∈ items → Holds n d → Holds n (.set items)
  | key {entries : List (Document × Document)} {p : Document × Document} : p ∈ entries →
      Holds n p.1 → Holds n (.mapping entries)
  | value {entries : List (Document × Document)} {p : Document × Document} : p ∈ entries →
      Holds n p.2 → Holds n (.mapping entries)

/-- Whether a whole number has more digits than are written. -/
def TooLong (n : Int) : Prop :=
  Decimal.digitLimit < (Nat.toDigits 10 n.natAbs).length

mutual

/-- A value can be written out unless a number in it is too long. -/
theorem isWritable_iff : ∀ d : Document, d.isWritable = true ↔ ∀ n, d.Holds n → ¬TooLong n
  | .int m => by
    rw [isWritable, decide_eq_true_iff, ← Nat.not_lt]
    refine ⟨fun h n hn => ?_, fun h => h m .int⟩
    cases hn
    exact h
  | .list items => by
    rw [isWritable, areWritable_iff]
    refine ⟨fun h n hn => ?_, fun h d hd n hn => h n (.item hd hn)⟩
    cases hn with | item hd hn => exact h _ hd n hn
  | .tuple items => by
    rw [isWritable, areWritable_iff]
    refine ⟨fun h n hn => ?_, fun h d hd n hn => h n (.part hd hn)⟩
    cases hn with | part hd hn => exact h _ hd n hn
  | .set items => by
    rw [isWritable, areWritable_iff]
    refine ⟨fun h n hn => ?_, fun h d hd n hn => h n (.member hd hn)⟩
    cases hn with | member hd hn => exact h _ hd n hn
  | .mapping entries => by
    rw [isWritable, entriesAreWritable_iff]
    refine ⟨fun h n hn => ?_, fun h p hp n hn => h n (hn.elim (.key hp) (.value hp))⟩
    cases hn with
    | key hp hn => exact h _ hp n (.inl hn)
    | value hp hn => exact h _ hp n (.inr hn)
  | .null | .bool _ | .float _ | .text _ | .day _ | .moment _ | .bytes _ =>
    iff_of_true rfl fun _ hn => nomatch hn

theorem areWritable_iff : ∀ items : List Document,
    areWritable items = true ↔ ∀ d ∈ items, ∀ n, Holds n d → ¬TooLong n
  | [] => iff_of_true rfl fun _ hd => nomatch hd
  | d :: rest => by
    rw [areWritable, Bool.and_eq_true, isWritable_iff d, areWritable_iff rest,
      List.forall_mem_cons]

theorem entriesAreWritable_iff : ∀ entries : List (Document × Document),
    entriesAreWritable entries = true ↔
      ∀ p ∈ entries, ∀ n, Holds n p.1 ∨ Holds n p.2 → ¬TooLong n
  | [] => iff_of_true rfl fun _ hp => nomatch hp
  | (key, value) :: rest => by
    rw [entriesAreWritable, Bool.and_eq_true, Bool.and_eq_true, isWritable_iff key,
      isWritable_iff value, entriesAreWritable_iff rest, List.forall_mem_cons]
    exact and_congr_left fun _ =>
      ⟨fun h n hn => hn.elim (h.1 n) (h.2 n), fun h => ⟨fun n hn => h n (.inl hn),
        fun n hn => h n (.inr hn)⟩⟩

end

end Document

namespace Config

variable {entries : List (Document × Document)} {α : Type}

-- ================================================== what settings take

def IsProgram (v : Document) (s : String) : Prop :=
  v = .text s ∧ s ≠ ""

def IsRoot (v : Document) (root : Option String) : Prop :=
  v = .null ∧ root = none ∨ ∃ s, v = .text s ∧ root = some s

def IsText (v : Document) (s : String) : Prop :=
  v = .text s

def IsDepth (v : Document) (depth : Nat) : Prop :=
  v = .int depth ∧ 0 < depth

/-- The variables of a mapping, their names and values as texts. -/
def IsEnvironment (v : Document) (env : Bindings String) : Prop :=
  ∃ vars, v = .mapping vars ∧
    env = Bindings.ofList (vars.map fun p => (p.1.plainText, p.2.plainText))

/-- Whether what can be read from a value is what the value is. -/
def Reads (read? : Document → Option α) (Is : Document → α → Prop) : Prop :=
  ∀ v a, read? v = some a ↔ Is v a

/-- Whether a value is one thing at most. -/
def Functional (Is : Document → α → Prop) : Prop :=
  ∀ {v a b}, Is v a → Is v b → a = b

theorem Reads.functional {read? : Document → Option α} {Is : Document → α → Prop}
    (h : Reads read? Is) : Functional Is :=
  fun ha hb => Option.some.inj (((h _ _).2 ha).symm.trans ((h _ _).2 hb))

theorem reads_program? : Reads program? IsProgram := by
  intro v s
  cases v <;> simp [program?, IsProgram]
  grind

theorem reads_root? : Reads root? IsRoot := by
  intro v root
  cases v <;> simp [root?, IsRoot, eq_comm]

theorem reads_text? : Reads text? IsText := by
  intro v s
  cases v <;> simp [text?, IsText]

theorem reads_depth? : Reads depth? IsDepth := by
  intro v depth
  cases v <;> simp [depth?, IsDepth]
  omega

/-- The entries of a mapping, before they become variables. -/
def IsMapping (v : Document) (vars : List (Document × Document)) : Prop :=
  v = .mapping vars

theorem reads_entries? : Reads entries? IsMapping := by
  intro v vars
  cases v <;> simp [entries?, IsMapping]

theorem IsEnvironment.functional : Functional IsEnvironment := by
  rintro v a b ⟨vars, rfl, rfl⟩ ⟨_, he, rfl⟩
  cases he
  rfl

-- ================================================================ settings

/-- What a setting comes to: the default if the mapping leaves it out, else
what the value it gives is. -/
def Sets (entries : List (Document × Document)) (name : String) (default : α)
    (Is : Document → α → Prop) (a : α) : Prop :=
  (∃ v, (.text name, v) ∈ entries ∧ Is v a) ∨ (∀ v, (.text name, v) ∉ entries) ∧ a = default

/-- Whether a mapping gives a setting a value that it does not take. -/
def Refuses (entries : List (Document × Document)) (name : String) (Is : Document → α → Prop) :
    Prop :=
  ∃ v, (.text name, v) ∈ entries ∧ ∀ a, ¬Is v a

theorem mem_of_setting? {name : String} {v : Document} (h : setting? name entries = some v) :
    (.text name, v) ∈ entries := by
  induction entries with
  | nil => cases h
  | cons p rest ih =>
    obtain ⟨key, value⟩ := p
    rw [setting?] at h
    split at h
    · rename_i hkey
      cases h
      rw [(reads_text? _ _).1 hkey]
      exact List.mem_cons_self
    · exact List.mem_cons_of_mem _ (ih h)

theorem not_mem_of_setting? {name : String} (h : setting? name entries = none) (v : Document) :
    (.text name, v) ∉ entries := by
  induction entries with
  | nil => exact List.not_mem_nil
  | cons p rest ih =>
    obtain ⟨key, value⟩ := p
    rw [setting?] at h
    split at h
    · cases h
    · rename_i hkey
      intro hmem
      rcases List.mem_cons.1 hmem with he | hmem
      · cases he
        exact hkey rfl
      · exact ih h hmem

/-- A setting is read, or its value is refused with its own fault. -/
theorem setting_cases (entries : List (Document × Document)) (name : String) (fault : Fault)
    (default : α) {read? : Document → Option α} {Is : Document → α → Prop}
    (hread : Reads read? Is) :
    (∃ a, setting name fault default read? entries = .ok a ∧ Sets entries name default Is a) ∨
      setting name fault default read? entries = .error (.fault fault) ∧
        Refuses entries name Is := by
  unfold setting
  cases hv : setting? name entries with
  | none => exact .inl ⟨default, rfl, .inr ⟨not_mem_of_setting? hv, rfl⟩⟩
  | some v =>
    dsimp only
    cases ha : read? v with
    | some a => exact .inl ⟨a, rfl, .inl ⟨v, mem_of_setting? hv, (hread v a).1 ha⟩⟩
    | none =>
      refine .inr ⟨rfl, v, mem_of_setting? hv, fun a h => ?_⟩
      rw [(hread v a).2 h] at ha
      cases ha

-- ================================================================ mappings

/-- Whether no two keys of a mapping are one text. -/
def Apart (entries : List (Document × Document)) : Prop :=
  ((entries.map Prod.fst).filterMap text?).Nodup

theorem Apart.unique (h : Apart entries) {name : String} {v w : Document}
    (hv : (.text name, v) ∈ entries) (hw : (.text name, w) ∈ entries) : v = w := by
  induction entries with
  | nil => cases hv
  | cons p rest ih =>
    have hmem : ∀ {u}, (.text name, u) ∈ rest → name ∈ (rest.map Prod.fst).filterMap text? :=
      fun hu => List.mem_filterMap.2 ⟨_, List.mem_map_of_mem hu, rfl⟩
    rw [Apart, List.map_cons, List.filterMap_cons] at h
    rcases List.mem_cons.1 hv with rfl | hv'
    · obtain ⟨hnot, -⟩ := List.nodup_cons.1 h
      rcases List.mem_cons.1 hw with he | hw'
      · exact (Prod.mk.inj he).2.symm
      · exact absurd (hmem hw') hnot
    · rcases List.mem_cons.1 hw with rfl | hw'
      · exact absurd (hmem hv') (List.nodup_cons.1 h).1
      · refine ih ?_ hv' hw'
        cases hp : text? p.1 with
        | none =>
          rw [hp] at h
          exact h
        | some t =>
          rw [hp] at h
          exact (List.nodup_cons.1 h).2

/-- The settings that a mapping describes. -/
structure Describes (entries : List (Document × Document)) (config : Config) : Prop where
  known : ∀ p ∈ entries, ∃ name ∈ settings, p.1 = .text name
  shell : Sets entries "shell" "/bin/sh" IsProgram config.shell
  interfaceRoot : Sets entries "interface_root" none IsRoot config.interfaceRoot
  encoding : Sets entries "encoding" "utf-8" IsText config.encoding
  maxCallDepth : Sets entries "max_call_depth" 64 IsDepth config.maxCallDepth
  env : Sets entries "env" [] IsEnvironment config.env

/-- Whether the variables of a mapping can be written out. -/
def Printable (entries : List (Document × Document)) : Prop :=
  ∀ v, (.text "env", v) ∈ entries → ∀ n, v.Holds n → ¬Document.TooLong n

theorem Sets.unique {name : String} {default a b : α} {Is : Document → α → Prop}
    (ha : Sets entries name default Is a) (hb : Sets entries name default Is b)
    (h : Apart entries) (his : Functional Is) : a = b := by
  rcases ha with ⟨v, hv, ha⟩ | ⟨hnone, rfl⟩
  · rcases hb with ⟨w, hw, hb⟩ | ⟨hnone, -⟩
    · cases h.unique hv hw
      exact his ha hb
    · exact absurd hv (hnone v)
  · rcases hb with ⟨w, hw, -⟩ | ⟨-, rfl⟩
    · exact absurd hw (hnone w)
    · rfl

theorem Sets.not_refuses {name : String} {default a : α} {Is : Document → α → Prop}
    (ha : Sets entries name default Is a) (h : Apart entries) : ¬Refuses entries name Is := by
  rintro ⟨w, hw, hno⟩
  rcases ha with ⟨v, hv, ha⟩ | ⟨hnone, -⟩
  · cases h.unique hv hw
    exact hno a ha
  · exact hnone w hw

theorem Describes.unique {c d : Config} (hc : Describes entries c) (hd : Describes entries d)
    (h : Apart entries) : c = d := by
  have hshell := hc.shell.unique hd.shell h reads_program?.functional
  have hroot := hc.interfaceRoot.unique hd.interfaceRoot h reads_root?.functional
  have hencoding := hc.encoding.unique hd.encoding h reads_text?.functional
  have hdepth := hc.maxCallDepth.unique hd.maxCallDepth h reads_depth?.functional
  have henv := hc.env.unique hd.env h IsEnvironment.functional
  cases c
  cases d
  simp only at hshell hroot hencoding hdepth henv
  subst hshell hroot hencoding hdepth henv
  rfl

-- ================================================================== faults

/-- What a fault says of the mapping that has it. -/
def Fault.Blames (entries : List (Document × Document)) : Fault → Prop
  | .unknownKeys names => names ≠ [] ∧ names.Pairwise (· ≤ ·) ∧
      ∀ name, name ∈ names ↔ name ∉ settings ∧ ∃ v, (.text name, v) ∈ entries
  | .shell => Refuses entries "shell" IsProgram
  | .interfaceRoot => Refuses entries "interface_root" IsRoot
  | .encoding => Refuses entries "encoding" IsText
  | .maxCallDepth => Refuses entries "max_call_depth" IsDepth
  | .env => Refuses entries "env" IsEnvironment
  | .notFound _ | .malformed _ | .notMapping _ _ => False

/-- A mapping with a fault describes no settings. -/
theorem Fault.Blames.not_describes {f : Fault} (hf : f.Blames entries) (h : Apart entries)
    (config : Config) : ¬Describes entries config := by
  intro hd
  cases f with
  | unknownKeys names =>
    obtain ⟨hne, -, hnames⟩ := hf
    obtain ⟨name, hname⟩ := List.exists_mem_of_ne_nil names hne
    obtain ⟨hnot, v, hv⟩ := (hnames name).1 hname
    obtain ⟨known, hknown, he⟩ := hd.known _ hv
    cases he
    exact hnot hknown
  | shell => exact hd.shell.not_refuses h hf
  | interfaceRoot => exact hd.interfaceRoot.not_refuses h hf
  | encoding => exact hd.encoding.not_refuses h hf
  | maxCallDepth => exact hd.maxCallDepth.not_refuses h hf
  | env => exact hd.env.not_refuses h hf
  | notFound | malformed | notMapping => exact hf

/-- A failure that is not reported, for a key that is no text. -/
def Failure.OfKey : Failure → Prop
  | .keyNotText _ | .keysUnordered _ _ => True
  | .fault _ | .numberTooLong => False

theorem pairwise_mergeSort_names (names : List String) :
    (names.mergeSort (· ≤ ·)).Pairwise (· ≤ ·) := by
  have htrans : ∀ a b c : String, decide (a ≤ b) = true → decide (b ≤ c) = true →
      decide (a ≤ c) = true := fun a b c hab hbc =>
    decide_eq_true (String.le_trans (of_decide_eq_true hab) (of_decide_eq_true hbc))
  have htotal : ∀ a b : String, (decide (a ≤ b) || decide (b ≤ a)) = true :=
    fun a b => by simpa using String.le_total a b
  exact (List.pairwise_mergeSort htrans htotal names).imp of_decide_eq_true

/-- Either all keys are texts or one of them is none. -/
theorem mapM_text?_cases (keys : List Document) :
    (∃ names : List String, keys = names.map .text ∧ keys.mapM text? = some names) ∨
      (∃ k ∈ keys, text? k = none) ∧ keys.mapM text? = none := by
  induction keys with
  | nil => exact .inl ⟨[], rfl, rfl⟩
  | cons k rest ih =>
    rw [List.mapM_cons]
    cases hk : text? k with
    | none => exact .inr ⟨⟨k, List.mem_cons_self, hk⟩, rfl⟩
    | some name =>
      rcases ih with ⟨names, hkeys, hnames⟩ | ⟨⟨j, hj, hnone⟩, hnames⟩
      · refine .inl ⟨name :: names, ?_, by rw [hnames]; rfl⟩
        rw [List.map_cons, hkeys, (reads_text? _ _).1 hk]
      · exact .inr ⟨⟨j, List.mem_cons_of_mem _ hj, hnone⟩, by rw [hnames]; rfl⟩

/-- Keys that name no setting are reported if all of them are texts. -/
theorem unknownKeys?_cases (keys : List Document) :
    keys = [] ∧ unknownKeys? keys = none ∨
      (∃ names, names ≠ [] ∧ keys = names.map .text ∧
        unknownKeys? keys = some (.fault (.unknownKeys (names.mergeSort (· ≤ ·))))) ∨
      (∃ k ∈ keys, text? k = none) ∧ ∃ e : Failure, e.OfKey ∧ unknownKeys? keys = some e := by
  cases keys with
  | nil => exact .inl ⟨rfl, rfl⟩
  | cons first rest =>
    unfold unknownKeys?
    rcases mapM_text?_cases (first :: rest) with ⟨names, hkeys, hnames⟩ | ⟨hkey, hnames⟩
    · refine .inr (.inl ⟨names, ?_, hkeys, by rw [hnames]⟩)
      rintro rfl
      cases hkeys
    · refine .inr (.inr ⟨hkey, ?_⟩)
      rw [hnames]
      dsimp only
      split
      · exact ⟨.keyNotText _, trivial, rfl⟩
      · split
        · exact ⟨.keyNotText _, trivial, rfl⟩
        · split
          · exact ⟨.keysUnordered _ _, trivial, rfl⟩
          · exact ⟨.keyNotText _, trivial, rfl⟩

-- ================================================================= outcome

/-- How reading the settings of a mapping ends. -/
inductive Outcome (entries : List (Document × Document)) : Except Failure Config → Prop where
  | ofKey {e : Failure} : (∃ p ∈ entries, text? p.1 = none) → e.OfKey →
      Outcome entries (.error e)
  | fault {f : Fault} : (∀ p ∈ entries, text? p.1 ≠ none) → f.Blames entries →
      Outcome entries (.error (.fault f))
  | tooLong {config : Config} : Describes entries config → ¬Printable entries →
      Outcome entries (.error .numberTooLong)
  | settled {config : Config} : Describes entries config → Printable entries →
      Outcome entries (.ok config)

theorem isSetting_iff {k : Document} : isSetting k = true ↔ ∃ name ∈ settings, k = .text name := by
  cases k <;> simp [isSetting]

/-- The keys that name no setting. -/
theorem mem_unknown {k : Document} :
    k ∈ (entries.map Prod.fst).filter (fun k => !isSetting k) ↔
      (∃ v, (k, v) ∈ entries) ∧ ¬∃ name ∈ settings, k = .text name := by
  rw [List.mem_filter, Bool.not_eq_true', ← Bool.not_eq_true, isSetting_iff]
  simp

theorem environment_cases (h : Apart entries) {vars : List (Document × Document)}
    (hvars : Sets entries "env" [] IsMapping vars) :
    ∃ env, Sets entries "env" [] IsEnvironment env ∧
      (Printable entries ∧ environment vars = .ok env ∨
        ¬Printable entries ∧ environment vars = .error .numberTooLong) := by
  let env := Bindings.ofList (vars.map fun p => (p.1.plainText, p.2.plainText))
  have hwritable : Printable entries ↔ (Document.mapping vars).isWritable = true := by
    rw [Document.isWritable_iff]
    rcases hvars with ⟨v, hv, rfl⟩ | ⟨hnone, rfl⟩
    · exact ⟨fun hp => hp _ hv, fun hw v hv' => h.unique hv hv' ▸ hw⟩
    · exact iff_of_true (fun v hv => absurd hv (hnone v)) fun n hn => nomatch hn
  have henv : Sets entries "env" [] IsEnvironment env := by
    rcases hvars with ⟨v, hv, rfl⟩ | ⟨hnone, rfl⟩
    · exact .inl ⟨_, hv, vars, rfl, rfl⟩
    · exact .inr ⟨hnone, rfl⟩
  refine ⟨env, henv, ?_⟩
  rw [hwritable]
  unfold environment
  by_cases hw : Document.entriesAreWritable vars = true
  · exact .inl ⟨hw, if_pos hw⟩
  · exact .inr ⟨hw, if_neg hw⟩

/-- With no key but those of settings, the settings are read in their order. -/
theorem ofEntries_outcome_of_known (h : Apart entries)
    (hknown : ∀ p ∈ entries, ∃ name ∈ settings, p.1 = .text name)
    (hu : unknownKeys? ((entries.map Prod.fst).filter fun k => !isSetting k) = none) :
    Outcome entries (ofEntries entries) := by
  have htexts : ∀ p ∈ entries, text? p.1 ≠ none := by
    intro p hp hnone
    obtain ⟨name, -, he⟩ := hknown p hp
    rw [he] at hnone
    cases hnone
  unfold ofEntries
  simp only [hu, pure, Except.pure, bind, Except.bind]
  obtain ⟨shell, hs, hshell⟩ | ⟨hs, hno⟩ :=
    setting_cases entries "shell" .shell "/bin/sh" reads_program?
  case inr => simpa only [hs] using .fault htexts hno
  obtain ⟨interfaceRoot, hr, hroot⟩ | ⟨hr, hno⟩ :=
    setting_cases entries "interface_root" .interfaceRoot none reads_root?
  case inr => simpa only [hs, hr] using .fault htexts hno
  obtain ⟨encoding, he, hencoding⟩ | ⟨he, hno⟩ :=
    setting_cases entries "encoding" .encoding "utf-8" reads_text?
  case inr => simpa only [hs, hr, he] using .fault htexts hno
  obtain ⟨depth, hd, hdepth⟩ | ⟨hd, hno⟩ :=
    setting_cases entries "max_call_depth" .maxCallDepth 64 reads_depth?
  case inr => simpa only [hs, hr, he, hd] using .fault htexts hno
  obtain ⟨vars, hv, hvars⟩ | ⟨hv, hno⟩ :=
    setting_cases entries "env" .env [] reads_entries?
  case inr =>
    obtain ⟨v, hv', hno⟩ := hno
    have hnot : Refuses entries "env" IsEnvironment :=
      ⟨v, hv', fun env henv => henv.elim fun vars hvars => hno vars hvars.1⟩
    simpa only [hs, hr, he, hd, hv] using .fault htexts hnot
  obtain ⟨env, henv, ⟨hprint, hok⟩ | ⟨hprint, hlong⟩⟩ := environment_cases h hvars
  · have hdesc : Describes entries ⟨shell, interfaceRoot, encoding, depth, env⟩ :=
      ⟨hknown, hshell, hroot, hencoding, hdepth, henv⟩
    simpa only [hs, hr, he, hd, hv, hok] using .settled hdesc hprint
  · have hdesc : Describes entries ⟨shell, interfaceRoot, encoding, depth, env⟩ :=
      ⟨hknown, hshell, hroot, hencoding, hdepth, henv⟩
    simpa only [hs, hr, he, hd, hv, hlong] using .tooLong hdesc hprint

theorem ofEntries_outcome (h : Apart entries) : Outcome entries (ofEntries entries) := by
  rcases unknownKeys?_cases ((entries.map Prod.fst).filter fun k => !isSetting k) with
    ⟨hnone, hu⟩ | ⟨names, hne, hnames, hu⟩ | ⟨hkey, e, he, hu⟩
  · refine ofEntries_outcome_of_known h (fun p hp => Classical.not_not.1 fun hnot => ?_) hu
    exact List.not_mem_nil (hnone ▸ mem_unknown.2 ⟨⟨p.2, hp⟩, hnot⟩)
  · unfold ofEntries
    rw [hu]
    refine .fault (fun p hp hnone => ?_) ⟨?_, pairwise_mergeSort_names names, fun name => ?_⟩
    · have hp' : p.1 ∈ names.map Document.text := hnames ▸ mem_unknown.2
        ⟨⟨p.2, hp⟩, fun ⟨name, _, he⟩ => by rw [he] at hnone; cases hnone⟩
      obtain ⟨name, -, he⟩ := List.mem_map.1 hp'
      rw [← he] at hnone
      cases hnone
    · intro hnil
      exact hne (List.perm_nil.1 (hnil ▸ (List.mergeSort_perm names _).symm))
    · have hk : .text name ∈ (entries.map Prod.fst).filter (fun k => !isSetting k) ↔ _ :=
        mem_unknown
      rw [hnames] at hk
      rw [List.mem_mergeSort]
      simpa [and_comm] using hk
  · unfold ofEntries
    rw [hu]
    obtain ⟨k, hk, hnone⟩ := hkey
    obtain ⟨⟨v, hv⟩, -⟩ := mem_unknown.1 hk
    exact .ofKey ⟨_, hv, hnone⟩ he

end Config

end SamScript
