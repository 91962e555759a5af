/-
Loading settings. Of a document that is read no two keys are the same, for
putting an entry replaces the one whose key is the same (`keys_putEntry`), so
what its settings are is decided by the document alone. Either it describes
settings, or it has a fault and the fault that is reported is one it has;
there are two more ways to end, with a key that is no text and with a number
that is too long to be written out (`Classified`).
-/
import SamScript.Proofs.Config.Settings

namespace SamScript

-- ==================================================================== keys

/-- Whether no two keys of a document are one text, if it is a mapping. -/
def Document.Apart (d : Document) : Prop :=
  ∀ entries, d = .mapping entries → Config.Apart entries

namespace Yaml

/-- Putting an entry leaves all keys as they are, or adds one at the end that
is the same as none of them. -/
theorem keys_putEntry (key value : Document) (entries : List (Document × Document)) :
    (putEntry key value entries).map Prod.fst = entries.map Prod.fst ∨
      (putEntry key value entries).map Prod.fst = entries.map Prod.fst ++ [key] ∧
        ∀ k ∈ entries.map Prod.fst, sameKey k key = false := by
  induction entries with
  | nil => exact .inr ⟨rfl, fun _ hk => nomatch hk⟩
  | cons p rest ih =>
    obtain ⟨k, v⟩ := p
    rw [putEntry]
    by_cases hk : sameKey k key = true
    · exact .inl (by rw [if_pos hk]; rfl)
    · rw [if_neg hk, List.map_cons, List.map_cons]
      rcases ih with hkeys | ⟨hkeys, hnone⟩
      · exact .inl (by rw [hkeys])
      · refine .inr ⟨by rw [hkeys]; rfl, List.forall_mem_cons.2 ⟨?_, hnone⟩⟩
        exact Bool.eq_false_iff.2 hk

theorem pairwise_entriesOf (written : List (Document × Document)) :
    ((entriesOf written).map Prod.fst).Pairwise fun a b => sameKey a b = false := by
  suffices ∀ entries : List (Document × Document),
      (entries.map Prod.fst).Pairwise (fun a b => sameKey a b = false) →
      ((written.foldl (fun entries p => putEntry p.1 p.2 entries) entries).map
        Prod.fst).Pairwise fun a b => sameKey a b = false from this [] .nil
  induction written with
  | nil => exact fun _ h => h
  | cons p rest ih =>
    intro entries h
    refine ih _ ?_
    rcases keys_putEntry p.1 p.2 entries with hkeys | ⟨hkeys, hnone⟩
    · exact hkeys ▸ h
    · rw [hkeys, List.pairwise_append]
      exact ⟨h, List.pairwise_singleton _ _, fun a ha b hb => List.mem_singleton.1 hb ▸ hnone a ha⟩

theorem apart_entriesOf (written : List (Document × Document)) :
    Config.Apart (entriesOf written) := by
  refine (List.pairwise_filterMap.2 ((pairwise_entriesOf written).imp ?_))
  intro a b hab s hs t ht hst
  rw [(Config.reads_text? _ _).1 hs, (Config.reads_text? _ _).1 ht, hst] at hab
  simp [sameKey, keyNumber?] at hab

theorem exists_of_map_eq_ok {ε α β : Type} {x : Except ε α} {f : α → β} {b : β}
    (h : x.map f = .ok b) : ∃ a, f a = b := by
  cases x with
  | error e => cases h
  | ok a => exact ⟨a, Except.ok.inj h⟩

/-- No scalar is a mapping. -/
theorem Scalar.document_ne_mapping {tag : Tag} {text : String}
    {entries : List (Document × Document)} :
    Scalar.document tag text ≠ .ok (.mapping entries) := by
  intro h
  unfold Scalar.document at h
  cases tag with
  | timestamp =>
    simp only [timestamp] at h
    split at h
    · cases h
    · split at h
      · split at h <;> cases h
      · split at h <;> cases h
  | binary =>
    dsimp only at h
    split at h <;> cases h
  | bool | int | float =>
    obtain ⟨_, he⟩ := exists_of_map_eq_ok h
    cases he
  | _ => cases h

/-- A document that is read has every text once among its keys. -/
theorem apart_of_read {text : List Char} {d : Document} (h : read text = .ok d) : d.Apart := by
  rintro entries rfl
  unfold read at h
  split at h
  · cases h
  · cases h
  · rename_i n _
    unfold Node.document at h
    split at h
    · exact absurd h Scalar.document_ne_mapping
    · split at h
      · obtain ⟨_, he⟩ := exists_of_map_eq_ok h
        cases he
      · obtain ⟨_, he⟩ := exists_of_map_eq_ok h
        cases he
      · cases h
    · split at h
      · obtain ⟨⟨merged, own⟩, he⟩ := exists_of_map_eq_ok h
        cases he
        exact apart_entriesOf _
      · obtain ⟨_, he⟩ := exists_of_map_eq_ok h
        cases he
      · split at h
        · exact absurd h Scalar.document_ne_mapping
        · cases h

end Yaml

-- =============================================================== documents

namespace Document

/-- The settings that a document describes: the defaults if it stands for
nothing, else those of a mapping. -/
def Describes (d : Document) (config : Config) : Prop :=
  d.isEmpty = true ∧ config = {} ∨
    ∃ entries, d = .mapping entries ∧ Config.Describes entries config

/-- Whether the variables of a document can be written out. -/
def Printable (d : Document) : Prop :=
  ∀ entries, d = .mapping entries → Config.Printable entries

/-- Whether a document is a mapping with a key that is no text. -/
def HasOtherKey (d : Document) : Prop :=
  ∃ entries, d = .mapping entries ∧ ∃ p ∈ entries, ∀ name, p.1 ≠ .text name

/-- Whether a document has a fault. -/
def Has (d : Document) (path : String) (f : Config.Fault) : Prop :=
  (∃ entries, d = .mapping entries ∧ f.Blames entries) ∨
    f = .notMapping path d.typeName ∧ d.isEmpty = false ∧ ∀ entries, d ≠ .mapping entries

end Document

namespace Config

/-- How reading the settings of a document ends, whatever the document. -/
structure Classified (path : String) (d : Document) (reply : Except Failure Config) : Prop where
  /-- The settings are those that the document describes. -/
  settled : ∀ config, reply = .ok config ↔ d.Describes config ∧ d.Printable
  /-- A fault is reported if the document describes no settings. -/
  reported : (∃ f, reply = .error (.fault f)) ↔
    (∀ config, ¬d.Describes config) ∧ ¬d.HasOtherKey
  /-- The document has the fault that is reported. -/
  blamed : ∀ f, reply = .error (.fault f) → f.diagnostic.code = "C001" ∧ d.Has path f
  /-- Keys that are no texts are not reported. -/
  ofKey : (∃ e : Failure, e.OfKey ∧ reply = .error e) ↔ d.HasOtherKey
  /-- Neither are numbers that cannot be written out. -/
  tooLong : reply = .error .numberTooLong ↔ (∃ config, d.Describes config) ∧ ¬d.Printable

section

variable {entries : List (Document × Document)} {path : String}

theorem describes_nil : Describes [] {} :=
  have hnone {α : Type} {name : String} {default : α} {Is : Document → α → Prop} :
      Sets [] name default Is default := .inr ⟨fun _ => List.not_mem_nil, rfl⟩
  ⟨fun _ hp => absurd hp List.not_mem_nil, hnone, hnone, hnone, hnone, hnone⟩

theorem describes_mapping {config : Config} :
    (Document.mapping entries).Describes config ↔ Describes entries config := by
  constructor
  · rintro (⟨hempty, rfl⟩ | ⟨_, he, h⟩)
    · cases entries with
      | nil => exact describes_nil
      | cons => cases hempty
    · cases he
      exact h
  · exact fun h => .inr ⟨entries, rfl, h⟩

theorem printable_mapping : (Document.mapping entries).Printable ↔ Printable entries := by
  simp [Document.Printable]

theorem hasOtherKey_mapping :
    (Document.mapping entries).HasOtherKey ↔ ∃ p ∈ entries, text? p.1 = none := by
  have htext : ∀ k : Document, text? k = none ↔ ∀ name, k ≠ .text name := by
    intro k
    cases k <;> simp [text?]
  simp [Document.HasOtherKey, htext]

theorem Describes.text_of_mem {config : Config} (h : Describes entries config) :
    ¬∃ p ∈ entries, text? p.1 = none := by
  rintro ⟨p, hp, hnone⟩
  obtain ⟨name, -, he⟩ := h.known p hp
  rw [he] at hnone
  cases hnone

theorem Outcome.classified {reply : Except Failure Config} (ho : Outcome entries reply)
    (h : Apart entries) : Classified path (.mapping entries) reply := by
  have hkey : (Document.mapping entries).HasOtherKey ↔ _ := hasOtherKey_mapping
  cases ho with
  | @ofKey e hother he =>
    have hnot : ∀ config, ¬(Document.mapping entries).Describes config :=
      fun config hd => (describes_mapping.1 hd).text_of_mem hother
    have hfault : ∀ f, e ≠ .fault f := fun f hf => by rw [hf] at he; exact he
    have hlong : e ≠ .numberTooLong := fun hl => by rw [hl] at he; exact he
    exact {
      settled := fun config => iff_of_false (fun hr => nomatch hr) fun hd => hnot config hd.1
      reported := iff_of_false (fun ⟨f, hf⟩ => hfault f (Except.error.inj hf))
        fun hr => hr.2 (hkey.2 hother)
      blamed := fun f hf => absurd (Except.error.inj hf) (hfault f)
      ofKey := iff_of_true ⟨e, he, rfl⟩ (hkey.2 hother)
      tooLong := iff_of_false (fun hr => hlong (Except.error.inj hr))
        fun ⟨⟨config, hd⟩, _⟩ => hnot config hd }
  | @fault f htexts hblame =>
    have hnot : ∀ config, ¬(Document.mapping entries).Describes config :=
      fun config hd => hblame.not_describes h config (describes_mapping.1 hd)
    have hother : ¬(Document.mapping entries).HasOtherKey :=
      fun ho => (hkey.1 ho).elim fun p hp => htexts p hp.1 hp.2
    exact {
      settled := fun config => iff_of_false (fun hr => nomatch hr) fun hd => hnot config hd.1
      reported := iff_of_true ⟨f, rfl⟩ ⟨hnot, hother⟩
      blamed := fun g hg => by cases hg; exact ⟨rfl, .inl ⟨entries, rfl, hblame⟩⟩
      ofKey := iff_of_false (fun ⟨e, he, hr⟩ => by cases hr; exact he) hother
      tooLong := iff_of_false (fun hr => nomatch hr) fun ⟨⟨config, hd⟩, _⟩ => hnot config hd }
  | @tooLong config hd hprint =>
    have hdesc := describes_mapping.2 hd
    exact {
      settled := fun c => iff_of_false (fun hr => nomatch hr)
        fun hd => hprint (printable_mapping.1 hd.2)
      reported := iff_of_false (fun ⟨_, hf⟩ => nomatch hf) fun hr => hr.1 config hdesc
      blamed := fun _ hf => nomatch hf
      ofKey := iff_of_false (fun ⟨e, he, hr⟩ => by cases hr; exact he)
        fun ho => hd.text_of_mem (hkey.1 ho)
      tooLong := iff_of_true rfl ⟨⟨config, hdesc⟩, fun hp => hprint (printable_mapping.1 hp)⟩ }
  | @settled config hd hprint =>
    have hdesc := describes_mapping.2 hd
    exact {
      settled := fun c => by
        rw [describes_mapping, printable_mapping]
        exact ⟨fun hr => by cases hr; exact ⟨hd, hprint⟩, fun hc => congrArg _ (hd.unique hc.1 h)⟩
      reported := iff_of_false (fun ⟨_, hf⟩ => nomatch hf) fun hr => hr.1 config hdesc
      blamed := fun _ hf => nomatch hf
      ofKey := iff_of_false (fun ⟨_, _, hr⟩ => nomatch hr) fun ho => hd.text_of_mem (hkey.1 ho)
      tooLong := iff_of_false (fun hr => nomatch hr)
        fun hl => hl.2 (printable_mapping.2 hprint) }

/-- Of what is no mapping, only what stands for nothing gives settings. -/
theorem classified_of_ne_mapping {d : Document} (hd : ∀ entries, d ≠ .mapping entries) :
    Classified path d
      (if d.isEmpty then .ok {} else .error (.fault (.notMapping path d.typeName))) := by
  have hdesc : ∀ config, d.Describes config ↔ d.isEmpty = true ∧ config = {} :=
    fun config => or_iff_left fun ⟨entries, he, _⟩ => hd entries he
  have hprint : d.Printable := fun entries he => absurd he (hd entries)
  have hother : ¬d.HasOtherKey := fun ⟨entries, he, _⟩ => hd entries he
  cases hempty : d.isEmpty with
  | true =>
    rw [hempty] at hdesc
    exact {
      settled := fun config => by
        rw [hdesc]
        exact ⟨fun hr => by cases hr; exact ⟨⟨rfl, rfl⟩, hprint⟩, fun hc => by rw [hc.1.2]; rfl⟩
      reported := iff_of_false (fun ⟨_, hf⟩ => nomatch hf)
        fun hr => hr.1 {} ((hdesc {}).2 ⟨rfl, rfl⟩)
      blamed := fun _ hf => nomatch hf
      ofKey := iff_of_false (fun ⟨_, _, hr⟩ => nomatch hr) hother
      tooLong := iff_of_false (fun hr => nomatch hr) fun hl => hl.2 hprint }
  | false =>
    have hnot : ∀ config, ¬d.Describes config := fun config hc => by
      cases hempty.symm.trans ((hdesc config).1 hc).1
    exact {
      settled := fun config => iff_of_false (fun hr => nomatch hr) fun hc => hnot config hc.1
      reported := iff_of_true ⟨_, rfl⟩ ⟨hnot, hother⟩
      blamed := fun f hf => by cases hf; exact ⟨rfl, .inr ⟨rfl, hempty, hd⟩⟩
      ofKey := iff_of_false (fun ⟨e, he, hr⟩ => by cases hr; exact he) hother
      tooLong := iff_of_false (fun hr => nomatch hr) fun ⟨⟨config, hc⟩, _⟩ => hnot config hc }

theorem ofDocument_classified (path : String) (d : Document) (h : d.Apart) :
    Classified path d (ofDocument path d) := by
  cases d with
  | mapping entries => exact (ofEntries_outcome (h entries rfl)).classified (h entries rfl)
  | _ => exact classified_of_ne_mapping fun _ he => nomatch he

theorem load_of_read {host : Host} {text : List Char} {d : Document}
    (htext : host.readText? Utf8.decodeArriving? (Path.ofText path) = .ok (some text))
    (hread : Yaml.read text = .ok d) :
    load host path = (ofDocument (Path.ofText path).text d).mapError .settings := by
  simp only [load, htext, hread]

/-- The failure that a reply is, if it is one. -/
def failure? {ε α : Type} : Except ε α → Option ε
  | .error e => some e
  | .ok _ => none

theorem eq_ok_of_toOption {ε α : Type} {x : Except ε α} {a : α} (h : x.toOption = some a) :
    x = .ok a := by
  cases x with
  | error e => cases h
  | ok b => exact congrArg Except.ok (Option.some.inj h)

end

end Config

-- ============================================================ the theorem

/-- A document no two of whose keys are one text gives the settings that it
describes: those of a mapping of settings, each with its value, or the defaults
if it stands for nothing. Every other document has a fault, and one that it has
is reported, unless a key is no text; settings that are described are lost only
if a variable holds a number that is too long to be written out. What a file is
read as is such a document, and loading the file gives what its document gives. -/
theorem configuration_is_classified (path : String) {d : Document} (hd : d.Apart) :
    Config.Classified path d (Config.ofDocument path d) ∧
    ∀ (host : Host) (file : String) (text : List Char) (e : Document),
      host.readText? Utf8.decodeArriving? (Path.ofText file) = .ok (some text) →
      Yaml.read text = .ok e →
      e.Apart ∧ Config.load host file =
        (Config.ofDocument (Path.ofText file).text e).mapError .settings := by
  refine ⟨Config.ofDocument_classified path d hd, fun host file text e htext hread => ⟨?_, ?_⟩⟩
  · exact Yaml.apart_of_read hread
  · exact Config.load_of_read htext hread

/-- A file with two of the settings. -/
theorem configuration_is_classified_two_settings :
    let text := "shell: /bin/bash\nenv:\n  LEVEL: 3\n".toList
    let host : Host := ⟨fun _ => .ok (Utf8.encode text), fun _ _ => .error .badVariable⟩
    let config : Config := { shell := "/bin/bash", env := [("LEVEL", "3")] }
    ∃ d, Yaml.read text = .ok d ∧ d.Describes config ∧ d.Printable ∧
      Config.load host "sam.yaml" = .ok config := by
  intro text host config
  have hloaded : Config.load host "sam.yaml" = .ok config :=
    Config.eq_ok_of_toOption (by decide +kernel)
  have htext : host.readText? Utf8.decodeArriving? (Path.ofText "sam.yaml") = .ok (some text) :=
    Config.eq_ok_of_toOption (by decide +kernel)
  have hsome : (Yaml.read text).toOption.isSome = true := by decide +kernel
  obtain ⟨d, hd⟩ := Option.isSome_iff_exists.1 hsome
  have hread : Yaml.read text = .ok d := Config.eq_ok_of_toOption hd
  obtain ⟨hclass, hfile⟩ :=
    configuration_is_classified (Path.ofText "sam.yaml").text (Yaml.apart_of_read hread)
  obtain ⟨-, hload⟩ := hfile host "sam.yaml" text d htext hread
  have hreply : Config.ofDocument (Path.ofText "sam.yaml").text d = .ok config := by
    rw [hloaded] at hload
    cases hr : Config.ofDocument (Path.ofText "sam.yaml").text d with
    | error e =>
      rw [hr] at hload
      cases hload
    | ok c =>
      rw [hr] at hload
      cases hload
      rfl
  obtain ⟨hdescribes, hprintable⟩ := (hclass.settled config).1 hreply
  exact ⟨d, hread, hdescribes, hprintable, hloaded⟩

/-- A key that is a number: the file gives no settings, and nothing is
reported. An empty list gives the defaults. -/
theorem configuration_with_number_for_key_is_not_reported :
    let host (text : String) : Host :=
      ⟨fun _ => .ok (Utf8.encode text.toList), fun _ _ => .error .badVariable⟩
    ¬((∃ config, Config.load (host "1: 2\n") "sam.yaml" = .ok config) ∨
      ∃ f, Config.load (host "1: 2\n") "sam.yaml" = .error (.settings (.fault f))) ∧
    Config.load (host "[]\n") "sam.yaml" = .ok {} := by
  intro host
  have hnumber : Config.failure? (Config.load (host "1: 2\n") "sam.yaml") =
      some (.settings (.keyNotText "int")) := by decide +kernel
  refine ⟨?_, Config.eq_ok_of_toOption (by decide +kernel)⟩
  rintro (⟨config, h⟩ | ⟨f, h⟩)
  · rw [h] at hnumber
    cases hnumber
  · rw [h] at hnumber
    cases hnumber

end SamScript
