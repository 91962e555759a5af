/-
What an outline shows of a parsed tree. Its lines are those of the named nodes in the
order of a walk, each as far in as there are named nodes above it (`outlineFrom_eq`).
Below a node that is no part of the structure there is nothing, so none is passed over.

A line stays one line whatever its text holds: a quoted text has no breaks in it
(`Text.quoted_unbroken`), and kinds and roles have none either as long as they have a
meaning of their own, which in a parsed tree all have (`Tree.ofSource_known`).
-/
import Mathlib.Data.List.Forall2
import SamScript.Proofs.Text.Lines
import SamScript.Proofs.Tree.Walk
import SamScript.Tree.Outline

namespace SamScript

open Lines Node

-- ============================================================ quoted texts

namespace Text

-- A list ends at the first range that holds the code; an array is gone through by index.
theorem isShown_eq (c : Char) :
    isShown c = if c.toNat < 0x7F then decide (0x20 ≤ c.toNat)
      else !hiddenRanges.toList.any fun range => range.1 ≤ c.toNat && c.toNat ≤ range.2 := by
  rw [isShown, inRanges, ← Array.any_toList]

theorem isBreak_of_isShown {c : Char} (h : isShown c = true) : isBreak c = false := by
  have hhidden : ['\n', '\r', '\x0b', '\x0c', '\x1c', '\x1d', '\x1e', '\u0085', '\u2028',
      '\u2029'].any isShown = false := by
    rw [funext isShown_eq]
    decide +kernel
  refine Bool.eq_false_iff.2 fun hbreak => List.any_eq_false.1 hhidden c ?_ h
  simpa [isBreak, or_assoc] using hbreak

theorem isBreak_toDigits (n : Nat) : ∀ d ∈ Nat.toDigits 16 n, isBreak d = false := by
  have hdigit : ∀ k < 16, isBreak (Nat.digitChar k) = false := by decide
  induction n using Nat.strongRecOn with
  | ind n ih =>
    rcases Nat.lt_or_ge n 16 with hlt | hge
    · rw [Nat.toDigits_of_lt_base hlt]
      exact List.forall_mem_singleton.2 (hdigit n hlt)
    · rw [Nat.toDigits_of_base_le (by decide) hge]
      exact List.forall_mem_append.2 ⟨ih (n / 16) (by omega),
        List.forall_mem_singleton.2 (hdigit _ (Nat.mod_lt _ (by decide)))⟩

theorem isBreak_hex (width n : Nat) : ∀ d ∈ hex width n, isBreak d = false := by
  refine List.forall_mem_append.2 ⟨fun d hd => ?_, isBreak_toDigits n⟩
  rw [List.eq_of_mem_replicate hd]
  rfl

/-- A character stands in quotes without breaking the line. -/
theorem isBreak_quotedChar {quote : Char} (hquote : isBreak quote = false) (c : Char) :
    ∀ d ∈ quotedChar quote c, isBreak d = false := by
  have hpair {a b : Char} (ha : isBreak a = false) (hb : isBreak b = false) :
      ∀ d ∈ [a, b], isBreak d = false :=
    List.forall_mem_cons.2 ⟨ha, List.forall_mem_singleton.2 hb⟩
  unfold quotedChar
  split
  · rename_i hc
    rw [Bool.or_eq_true, decide_eq_true_eq, decide_eq_true_eq] at hc
    rcases hc with rfl | rfl
    · exact hpair rfl hquote
    · exact hpair rfl rfl
  · split
    · exact hpair rfl rfl
    · split
      · exact hpair rfl rfl
      · split
        · exact hpair rfl rfl
        · split
          · rename_i hc
            exact List.forall_mem_singleton.2 (isBreak_of_isShown hc)
          · split
            · exact List.forall_mem_cons.2 ⟨rfl, List.forall_mem_cons.2 ⟨rfl, isBreak_hex _ _⟩⟩
            · split
              · exact List.forall_mem_cons.2 ⟨rfl, List.forall_mem_cons.2 ⟨rfl, isBreak_hex _ _⟩⟩
              · exact List.forall_mem_cons.2 ⟨rfl, List.forall_mem_cons.2 ⟨rfl, isBreak_hex _ _⟩⟩

/-- There is no break in a quoted text. -/
theorem quoted_unbroken (text : String) : ∀ c ∈ (quoted text).toList, isBreak c = false := by
  have hquote (b : Bool) : isBreak (if b then '"' else '\'') = false := by
    cases b <;> rfl
  unfold quoted
  rw [String.toList_ofList]
  refine List.forall_mem_cons.2 ⟨hquote _, List.forall_mem_append.2 ⟨fun c hc => ?_,
    List.forall_mem_singleton.2 (hquote _)⟩⟩
  obtain ⟨d, -, hd⟩ := List.mem_flatMap.1 hc
  exact isBreak_quotedChar (hquote _) d c hd

end Text

-- ===================================================== kinds and their roles

/-- Whether a node, if it is part of the structure, has a kind and a role with a meaning
of their own. -/
def Node.Known (n : Node) : Prop :=
  n.isNamed = true → n.kind ∈ NodeKind.known ∧ ∀ field ∈ n.field, field ∈ Field.known

/-- Whether some nodes are known, with all that is below them. -/
def Known (ns : List Node) : Prop :=
  ∀ n ∈ ns, n.All Node.Known

namespace Known

variable {ns ms : List Node} {n : Node} {kind : NodeKind} {field : Field}

theorem nil : Known [] :=
  fun _ h => nomatch h

theorem append (h : Known ns) (h' : Known ms) : Known (ns ++ ms) :=
  List.forall_mem_append.2 ⟨h, h'⟩

theorem cons (h : Known [n]) (h' : Known ns) : Known (n :: ns) :=
  append h h'

theorem childless (hc : n.children = []) (hn : n.Known) : Known [n] :=
  List.forall_mem_singleton.2 (all_of_childless hc hn)

theorem mark (t : Token) : Known [.anonymous t] :=
  childless rfl fun h => nomatch h

theorem leaf (hk : kind ∈ NodeKind.known) (span : Span) : Known [.leaf kind span] :=
  childless rfl fun _ => ⟨hk, fun _ h => nomatch h⟩

theorem branch (hk : kind ∈ NodeKind.known) (h : Known (n :: ns)) : Known [.branch kind n ns] :=
  List.forall_mem_singleton.2 (all_iff.2 ⟨fun _ => ⟨hk, fun _ h => nomatch h⟩, h⟩)

theorem inField (hf : field ∈ Field.known) (h : Known [n]) : Known [n.inField field] := by
  have hall := h n List.mem_cons_self
  refine List.forall_mem_singleton.2 (hall.inField fun hn => ?_)
  rw [isNamed_inField] at hn
  rw [kind_inField, field_inField]
  exact ⟨(hall.self hn).1, fun _ h => Option.some.inj h ▸ hf⟩

theorem inOptional {field : Option Field} (hf : ∀ f ∈ field, f ∈ Field.known) (h : Known [n]) :
    Known [n.inOptional field] := by
  cases field with
  | none => exact h
  | some field => exact inField (hf field rfl) h

theorem string (t : Token) : Known [Parser.stringNode t] := by
  have hquote (n : Node) (hc : n.children = []) (hn : n.isNamed = false) : Known [n] :=
    childless hc fun h => by
      rw [hn] at h
      cases h
  have hpieces : Known (t.parts.map Parser.pieceNode) := by
    intro n hn
    obtain ⟨part, -, rfl⟩ := List.mem_map.1 hn
    refine List.forall_mem_singleton.1 (?_ : Known [Parser.pieceNode part])
    unfold Parser.pieceNode
    split
    · exact leaf (by decide) _
    · exact leaf (by decide) _
  rw [Parser.stringNode_eq]
  exact branch (by decide) (cons (hquote _ rfl rfl) (append hpieces (hquote _ rfl rfl)))

end Known

/-- Whether the roles that a phrase gives have a meaning of their own. -/
def Phrase.Roles : Phrase → Prop
  | .listed field _ => ∀ f ∈ field, f ∈ Field.known
  | _ => True

/-- The nodes of a phrase are known. -/
theorem Spells.known {p : Phrase} {ts : List Token} {ns : List Node} (h : Spells p ts ns) :
    p.Roles → Known ns := by
  induction h with
  | number _ | negative _ _ _ =>
    exact fun _ => .branch (by decide) (.leaf (by decide) _)
  | string _ => exact fun _ => .branch (by decide) (.string _)
  | name _ => exact fun _ => .leaf (by decide) _
  | group _ _ _ ih => exact ih
  | array _ _ ih => exact fun _ => .branch (by decide) (.cons (.mark _) (ih nofun))
  | lambda _ _ _ ihhead ihbody =>
    exact fun _ => .branch (by decide) (.cons (.mark _)
      (.append (ihhead trivial) (.inField (by decide) (ihbody trivial))))
  | conditional _ ih => exact ih
  | call _ _ _ ihcallee ihitems =>
    have hitems := ihitems fun f hf => Option.some.inj hf ▸ (by decide)
    exact fun _ => .branch (by decide) (.cons (.inField (by decide) (ihcallee trivial))
      (.cons (.mark _) hitems))
  | access _ _ _ ih =>
    exact fun _ => .branch (by decide) (.cons (.inField (by decide) (ih trivial))
      (.cons (.mark _) (.inField (by decide) (.leaf (by decide) _))))
  | binary _ _ _ ihleft ihright =>
    exact fun _ => .branch (by decide) (.cons (.inField (by decide) (ihleft trivial))
      (.cons (.mark _) (.inField (by decide) (ihright trivial))))
  | if_ _ _ _ _ _ _ ihcondition ihblock ihalternative =>
    exact fun _ => .branch (by decide) (.cons (.mark _) (.cons (.mark _)
      (.cons (.inField (by decide) (ihcondition trivial)) (.cons (.mark _)
        (.cons (.inField (by decide) (ihblock trivial)) (ihalternative trivial))))))
  | noElse | noSemicolon | noInterfaces | noStatements => exact fun _ => .nil
  | elseIf _ _ ih | elseBlock _ _ ih =>
    exact fun _ => .cons (.mark _) (.inField (by decide) (ih trivial))
  | arrow _ _ => exact fun _ => .cons (.mark _) (.mark _)
  | parameter _ _ _ ih =>
    exact fun _ => .cons (.mark _) (.cons (.inField (by decide) (.leaf (by decide) _)) (ih trivial))
  | bare _ _ ih => exact ih
  | parameters _ _ ih =>
    exact fun _ => .cons (.inField (by decide) (.leaf (by decide) _)) (ih trivial)
  | close _ | brace _ | semicolon _ => exact fun _ => .mark _
  | last _ _ ih => exact fun hf => .cons (.inOptional hf (ih trivial)) (.mark _)
  | item _ _ _ ihitem ihmore =>
    exact fun hf => .cons (.inOptional hf (ihitem trivial)) (.cons (.mark _) (ihmore hf))
  | block _ _ ih => exact fun _ => .branch (by decide) (.cons (.mark _) (ih trivial))
  | inner _ _ _ ihfirst ihmore | statements _ _ _ ihfirst ihmore =>
    exact fun _ => .cons (ihfirst trivial) (ihmore trivial)
  | interfaces _ _ ihfirst ihmore => exact fun _ => .cons (ihfirst trivial) (ihmore trivial)
  | declaration _ _ _ ih ihending =>
    exact fun _ => .branch (by decide) (.cons (.mark _) (.append (ih trivial) (ihending trivial)))
  | return_ _ _ ih => exact fun _ => .branch (by decide) (.cons (.mark _) (ih trivial))
  | returnValue _ _ _ ih ihending =>
    exact fun _ => .branch (by decide) (.cons (.mark _)
      (.cons (.inField (by decide) (ih trivial)) (ihending trivial)))
  | assignment _ _ _ _ ih ihending =>
    exact fun _ => .branch (by decide) (.cons (.inField (by decide) (.leaf (by decide) _))
      (.cons (.mark _) (.cons (.inField (by decide) (ih trivial)) (ihending trivial))))
  | plain _ _ ih ihending =>
    exact fun _ => .branch (by decide) (.cons (ih trivial) (ihending trivial))
  | variable_ _ =>
    exact fun _ => .branch (by decide) (.inField (by decide) (.leaf (by decide) _))
  | variableValue _ _ _ ih =>
    exact fun _ => .branch (by decide) (.cons (.inField (by decide) (.leaf (by decide) _))
      (.cons (.mark _) (.inField (by decide) (ih trivial))))
  | declarator _ ih => exact ih
  | declarators _ _ _ ih ihmore =>
    exact fun _ => .cons (ih trivial) (.cons (.mark _) (ihmore trivial))
  | interface_ _ _ _ _ _ ih =>
    exact fun _ => .branch (by decide) (.cons (.mark _) (.cons (.inField (by decide) (.string _))
      (.cons (.mark _) (.cons (.inField (by decide) (.leaf (by decide) _)) (ih trivial)))))

/-- All nodes of a parsed tree are known. -/
theorem Tree.ofSource_known {bounds : Bounds} {file : Option String} {source : String}
    {tree : Tree} (h : Tree.ofSource bounds file source = .ok tree) :
    tree.root.All Node.Known := by
  obtain ⟨-, list, -, ds, is, declared, inner, -, hd, hi, hroot⟩ := Tree.ofSource_spells h
  have hdeclared : Known (gathered declared) := by
    cases declared with
    | nil => exact .nil
    | cons d ds => exact .branch (by decide) (hd.known trivial)
  rw [hroot]
  have hkind : NodeKind.sourceFile ∈ NodeKind.known := by decide
  exact Node.all_iff.2 ⟨fun _ => ⟨hkind, fun _ h => nomatch h⟩,
    hdeclared.append (hi.known trivial)⟩

-- ================================================================ the lines

/-- Whether a text begins with something other than a blank and has no break in it. -/
def Flush (text : List Char) : Prop :=
  text.head?.any (· ≠ ' ') = true ∧ ∀ c ∈ text, isBreak c = false

theorem unbroken_of_any {text : List Char} (h : text.any isBreak = false) :
    ∀ c ∈ text, isBreak c = false :=
  fun c hc => Bool.eq_false_iff.2 (List.any_eq_false.1 h c hc)

-- The characters of a text are looked at, not all that there are.
instance : DecidablePred Flush :=
  fun text => decidable_of_iff (text.head?.any (· ≠ ' ') = true ∧ text.any isBreak = false)
    (and_congr_right fun _ =>
      ⟨unbroken_of_any, fun h => List.any_eq_false.2 fun c hc => Bool.eq_false_iff.1 (h c hc)⟩)

namespace Flush

variable {a b : List Char}

theorem append (h : Flush a) (hb : ∀ c ∈ b, isBreak c = false) : Flush (a ++ b) := by
  refine ⟨?_, List.forall_mem_append.2 ⟨h.2, hb⟩⟩
  cases a with
  | nil => cases h.1
  | cons c cs => exact h.1

/-- Blanks in front of a flush text are all the blanks it begins with. -/
theorem takeWhile_blanks (h : Flush a) (k : Nat) :
    (List.replicate k ' ' ++ a).takeWhile (· = ' ') = List.replicate k ' ' := by
  have hstop : a.takeWhile (· = ' ') = [] := by
    cases a with
    | nil => rfl
    | cons c cs => simpa [List.takeWhile_cons] using h.1
  rw [List.takeWhile_append_of_pos fun c hc => by simpa using List.eq_of_mem_replicate hc, hstop,
    List.append_nil]

theorem kind : ∀ kind ∈ NodeKind.known, Flush kind.text.toList := by
  decide +kernel

theorem field : ∀ field ∈ Field.known, Flush field.text.toList := by
  decide +kernel

end Flush

namespace Node

variable {n m c : Node} {source : List UInt8} {level : Nat}

theorem flush_labelled (hm : m.Known) (hn : m.isNamed = true) :
    Flush (labelled m.field m.kind.text).toList := by
  obtain ⟨hkind, hfield⟩ := hm hn
  unfold labelled
  split
  · rename_i field hf
    split
    · exact Flush.kind _ hkind
    · rw [String.toList_append, String.toList_append]
      exact ((Flush.field field (hfield field hf)).append (unbroken_of_any (by decide))).append
        (Flush.kind _ hkind).2
  · exact Flush.kind _ hkind

/-- The line of a named node, behind the blanks it begins with. -/
theorem exists_outlineLine (hm : m.Known) (hn : m.isNamed = true) (source : List UInt8)
    (level : Nat) : ∃ text, Flush text ∧
      (outlineLine source level m).toList = List.replicate (2 * level) ' ' ++ text := by
  have hshown : ∀ d ∈ (if m.named.isEmpty then " " ++ Text.quoted (m.text source) else "").toList,
      isBreak d = false := by
    split
    · rw [String.toList_append]
      exact List.forall_mem_append.2 ⟨unbroken_of_any (by decide), Text.quoted_unbroken _⟩
    · exact fun d hd => nomatch hd
  refine ⟨_, (flush_labelled hm hn).append hshown, ?_⟩
  unfold outlineLine
  rw [String.toList_append, String.toList_append, String.toList_ofList, List.append_assoc]

/-- The line of the node at an address, if it has one: as far in as there are named
nodes above it. -/
def lineAt? (n : Node) (source : List UInt8) (level : Nat) (p : List Nat) : Option String :=
  ((n.at? p).filter isNamed).map (outlineLine source (level + n.above p))

theorem lineAt?_cons {i : Nat} (h : n.children[i]? = some c) (hn : n.isNamed = true)
    (source : List UInt8) (level : Nat) (p : List Nat) :
    n.lineAt? source level (i :: p) = c.lineAt? source (level + 1) p := by
  rw [lineAt?, lineAt?, at?_cons h, above_cons h hn, Nat.add_right_comm, Nat.add_assoc]

theorem outlineFrom_cons (source : List UInt8) (level : Nat) (n : Node) :
    outlineFrom source level n =
      outlineLine source level n :: outlinesFrom source (level + 1) n.children := by
  cases n
  rw [outlineFrom]
  rfl

/-- A node that is no part of the structure, with nothing below it, has no line. -/
theorem filterMap_places_bare (hb : n.Bare) (hn : n.isNamed = false) :
    n.places.filterMap (n.lineAt? source level) = [] := by
  have hnone : n.lineAt? source level [] = none := by
    rw [lineAt?, at?, Option.filter_some, if_neg (by rw [hn]; exact Bool.false_ne_true)]
    rfl
  rw [places_eq, hb hn, placesFrom, List.filterMap_cons_none hnone, List.filterMap_nil]

theorem outlinesFrom_eq (hn : n.isNamed = true) {ns : List Node} (hb : ∀ c ∈ ns, c.Bare)
    (h : ∀ c ∈ ns, c.isNamed = true → ∀ level,
      outlineFrom source level c = c.places.filterMap (c.lineAt? source level))
    {i : Nat} (hns : ∀ j, n.children[i + j]? = ns[j]?) :
    outlinesFrom source (level + 1) ns =
      (placesFrom i ns).filterMap (n.lineAt? source level) := by
  induction ns generalizing i with
  | nil => rfl
  | cons c rest ih =>
    rw [List.forall_mem_cons] at hb h
    have hc : n.children[i]? = some c := hns 0
    have hrest := ih hb.2 h.2 (i := i + 1) fun j => by
      rw [Nat.add_assoc, Nat.add_comm 1 j]
      exact hns (j + 1)
    have hfirst : n.lineAt? source level ∘ (i :: ·) = c.lineAt? source (level + 1) :=
      funext (lineAt?_cons hc hn source level)
    rw [outlinesFrom, placesFrom, List.filterMap_append, List.filterMap_map, hfirst, hrest]
    split
    · rename_i hcn
      rw [h.1 hcn]
    · rename_i hcn
      rw [filterMap_places_bare hb.1 (Bool.not_eq_true _ ▸ hcn), List.nil_append]

/-- The lines of an outline are those of the named nodes, in the order of a walk. -/
theorem outlineFrom_eq (h : n.All Bare) (hn : n.isNamed = true) (level : Nat) :
    outlineFrom source level n = n.places.filterMap (n.lineAt? source level) := by
  induction n using children_induction generalizing level with
  | step n ih =>
    obtain ⟨-, hbelow⟩ := all_iff.1 h
    have hself : n.lineAt? source level [] = some (outlineLine source level n) := by
      rw [lineAt?, at?, Option.filter_some, if_pos hn, above_nil]
      rfl
    rw [outlineFrom_cons, places_eq, List.filterMap_cons_some hself,
      outlinesFrom_eq hn (fun c hc => (hbelow c hc).self) (fun c hc => ih c hc (hbelow c hc))
        fun j => by rw [Nat.zero_add]]

/-- The places of the nodes that are part of the structure. -/
def shown (n : Node) : List (List Nat) :=
  n.places.filter fun p => (n.at? p).any isNamed

theorem mem_shown {p : List Nat} : p ∈ n.shown ↔ ∃ m, n.at? p = some m ∧ m.isNamed = true := by
  rw [shown, List.mem_filter, mem_places]
  cases n.at? p with
  | none => simp
  | some m => simp

theorem map_at?_shown (n : Node) : n.shown.map n.at? = (n.walk.filter isNamed).map some := by
  have hshown : (fun p => (n.at? p).any isNamed) = Option.any isNamed ∘ n.at? := rfl
  have hwalk : (Option.any isNamed ∘ some) = isNamed := rfl
  rw [shown, hshown, ← List.filter_map, map_at?_places, List.filter_map, hwalk, walk_eq]

/-- The lines of an outline stand beside the places of the named nodes. -/
theorem forall₂_outlineFrom (h : n.All Bare) (hn : n.isNamed = true) (source : List UInt8) :
    List.Forall₂ (fun p line => ∃ m, n.at? p = some m ∧ m.isNamed = true ∧
      line = outlineLine source (n.above p) m) n.shown (outlineFrom source 0 n) := by
  rw [outlineFrom_eq h hn, shown]
  induction n.places with
  | nil => exact List.Forall₂.nil
  | cons p rest ih =>
    by_cases hp : (n.at? p).any isNamed = true
    · obtain ⟨m, hm, hmn⟩ := (Option.any_eq_true _ _).1 hp
      have hline : n.lineAt? source 0 p = some (outlineLine source (n.above p) m) := by
        rw [lineAt?, hm, Option.filter_some, if_pos hmn, Nat.zero_add]
        rfl
      rw [List.filter_cons, if_pos hp, List.filterMap_cons_some hline]
      exact List.Forall₂.cons ⟨m, hm, hmn, rfl⟩ ih
    · have hline : n.lineAt? source 0 p = none := by
        rw [lineAt?, Option.map_eq_none_iff, Option.filter_eq_none_iff]
        exact fun m hm hmn => hp ((Option.any_eq_true _ _).2 ⟨m, hm, hmn⟩)
      rw [List.filter_cons, if_neg hp, List.filterMap_cons_none hline]
      exact ih

end Node

-- ============================================================== every outline

/-- A line as it stands for a node: as far in as it should be, and no break in it. -/
theorem Node.outlineLine_stands {m : Node} (hm : m.Known) (hn : m.isNamed = true)
    (source : List UInt8) (level : Nat) :
    (outlineLine source level m).toList.takeWhile (· = ' ') = List.replicate (2 * level) ' ' ∧
      (outlineLine source level m).toList ≠ [] ∧
      ∀ c ∈ (outlineLine source level m).toList, isBreak c = false := by
  obtain ⟨text, hflush, hline⟩ := exists_outlineLine hm hn source level
  rw [hline]
  refine ⟨hflush.takeWhile_blanks _, fun he => ?_, List.forall_mem_append.2 ⟨fun c hc => ?_,
    hflush.2⟩⟩
  · have hflush := hflush.1
    rw [(List.append_eq_nil_iff.1 he).2] at hflush
    cases hflush
  · rw [List.eq_of_mem_replicate hc]
    rfl

/-- A walk lists what is below a node in the order of the recursion, and an outline has
a line for each named node of it. A walk takes one step for each node, and what it comes
by are the nodes at all the addresses of the tree, in increasing order of these: none
comes again, and none before a node above it. The lines of the outline of a parsed tree
are those of the named nodes, in the same order, each begun by two blanks for every
named node above; there are no other breaks in the outline, whatever the leaves
hold. -/
theorem walks_and_outlines_follow_the_tree :
    (∀ n : Node, n.walk = n.preorder ∧ n.walk.length = n.size ∧
      n.walk.map some = n.places.map n.at? ∧ (∀ p, p ∈ n.places ↔ (n.at? p).isSome) ∧
      n.places.Pairwise (· < ·) ∧ n.places.Pairwise fun p q => ¬q <+: p) ∧
    ∀ bounds file source tree, Tree.ofSource bounds file source = .ok tree →
      ∃ lines, tree.root.outline tree.source = "\n".intercalate lines ∧
        Lines.split (tree.root.outline tree.source).toList = lines ∧
        tree.root.shown.map tree.root.at? = (tree.root.walk.filter isNamed).map some ∧
        List.Forall₂ (fun p line => ∃ m, tree.root.at? p = some m ∧
          line = outlineLine tree.source (tree.root.above p) m ∧
          line.toList.takeWhile (· = ' ') = List.replicate (2 * tree.root.above p) ' ' ∧
          ∀ c ∈ line.toList, isBreak c = false) tree.root.shown lines := by
  refine ⟨fun n => ⟨n.walk_eq, ?_, ?_, fun p => mem_places, n.places_increasing, n.places_apart⟩,
    fun bounds file source tree h => ?_⟩
  · rw [walk, length_walkFrom, sizes, sizes, Nat.add_zero]
  · rw [map_at?_places, walk_eq]
  · have hwell := Tree.ofSource_wellFormed h
    have hknown := Tree.ofSource_known h
    have hlines := forall₂_outlineFrom hwell.bare hwell.root.1 tree.source
    have hstands : List.Forall₂ (fun p line => ∃ m, tree.root.at? p = some m ∧
        line = outlineLine tree.source (tree.root.above p) m ∧
        line.toList.takeWhile (· = ' ') = List.replicate (2 * tree.root.above p) ' ' ∧
        line.toList ≠ [] ∧ ∀ c ∈ line.toList, isBreak c = false)
        tree.root.shown (outlineFrom tree.source 0 tree.root) := by
      refine hlines.imp fun p line h => ?_
      obtain ⟨m, hm, hmn, hline⟩ := h
      refine ⟨m, hm, hline, ?_⟩
      rw [hline]
      exact outlineLine_stands (hknown m (mem_preorder_of_at? hm)) hmn _ _
    refine ⟨_, rfl, split_intercalate fun line hline => ?_, map_at?_shown _,
      hstands.imp fun p line h => ?_⟩
    · obtain ⟨i, hi, rfl⟩ := List.mem_iff_getElem.1 hline
      have hplace : i < tree.root.shown.length := hstands.length_eq ▸ hi
      obtain ⟨m, -, -, -, hne, hbreak⟩ := hstands.get hplace hi
      exact ⟨hne, hbreak⟩
    · obtain ⟨m, hm, hline, hblanks, -, hbreak⟩ := h
      exact ⟨m, hm, hline, hblanks, hbreak⟩

/-- A string with a line separator and a carriage return in it: the outline has eleven
lines all the same, one for each named node. -/
theorem walks_and_outlines_follow_the_tree_breaks :
    ∃ tree, Tree.ofSource {} none "let x = 'a\u2028\rb'; f(x)" = .ok tree ∧
      tree.root.walk.length = 18 ∧ (tree.root.walk.filter isNamed).length = 11 ∧
      (Lines.split (tree.root.outline tree.source).toList).length = 11 ∧
      "          string_fragment 'a\\u2028\\rb'" ∈
        Lines.split (tree.root.outline tree.source).toList := by
  have hrun : (Tree.ofSource {} none "let x = 'a\u2028\rb'; f(x)").toOption.any (fun tree =>
      tree.root.size = 18 && tree.root.shown.length = 11 &&
      (tree.root.at? [0, 1, 2, 0, 1]).any fun m =>
        m.isNamed && outlineLine tree.source (tree.root.above [0, 1, 2, 0, 1]) m =
          "          string_fragment 'a\\u2028\\rb'") = true := by
    simp +unfoldPartialApp only [outlineLine, Text.quoted, Text.quotedChar, Text.isShown_eq]
    decide +kernel
  rcases htree : Tree.ofSource {} none "let x = 'a\u2028\rb'; f(x)" with e | tree
  · rw [htree] at hrun
    cases hrun
  · rw [htree] at hrun
    simp only [Except.toOption, Option.any_some, Bool.and_eq_true, decide_eq_true_eq] at hrun
    obtain ⟨⟨hsize, hshown⟩, hleaf⟩ := hrun
    obtain ⟨m, hm, hleaf⟩ := (Option.any_eq_true _ _).1 hleaf
    rw [Bool.and_eq_true, decide_eq_true_eq] at hleaf
    obtain ⟨hall, hparsed⟩ := walks_and_outlines_follow_the_tree
    obtain ⟨-, hwalk, -⟩ := hall tree.root
    obtain ⟨lines, -, hlines, hnodes, hbeside⟩ := hparsed {} none _ tree htree
    refine ⟨tree, rfl, hwalk.trans hsize, ?_, ?_, ?_⟩
    · rw [← hshown, ← List.length_map tree.root.at?, hnodes, List.length_map]
    · rw [hlines, ← hbeside.length_eq, hshown]
    · obtain ⟨i, hi, hplace⟩ := List.mem_iff_getElem.1 (mem_shown.2 ⟨m, hm, hleaf.1⟩)
      have hi' : i < lines.length := hbeside.length_eq ▸ hi
      obtain ⟨k, hk, hline, -⟩ := hbeside.get hi hi'
      rw [List.get_eq_getElem, hplace, hm] at hk
      obtain rfl := Option.some.inj hk
      rw [List.get_eq_getElem, List.get_eq_getElem, hplace, hleaf.2] at hline
      rw [hlines, ← hline]
      exact List.getElem_mem hi'

end SamScript
