/-
Where the numbers of a tree are. In a tree a number is a leaf, over the word of a
number alone or over a sign that touches it (`Tree.number_spelled`).
-/
import SamScript.Proofs.Token.Spelled
import SamScript.Proofs.Tree.Extents

namespace SamScript

open Scan Decimal

-- ==================================================================== nodes

/-- Whether a node, if it is a number, has nothing below it. -/
def Node.NumberLeaf (n : Node) : Prop :=
  n.kind = .number → n.children = []

open SamScript.Parser in
/-- The numbers of a phrase are leaves. -/
theorem Spells.numberLeaf {p : Phrase} {ts : List Token} {ns : List Node} (h : Spells p ts ns) :
    ∀ n ∈ ns, n.All Node.NumberLeaf := by
  have hleaf {n : Node} (hn : n.children = []) : n.All Node.NumberLeaf :=
    Node.all_of_childless hn fun _ => hn
  have hmark (t : Token) : (Node.anonymous t).All Node.NumberLeaf := hleaf rfl
  have hin {n : Node} (field : Field) (hn : n.All Node.NumberLeaf) :
      (n.inField field).All Node.NumberLeaf := by
    refine hn.inField fun hk => ?_
    cases n
    exact hn.self hk
  have hoptional {n : Node} (field : Option Field) (hn : n.All Node.NumberLeaf) :
      (n.inOptional field).All Node.NumberLeaf := by
    cases field with
    | none => exact hn
    | some field => exact hin field hn
  have hnode {kind : NodeKind} {n : Node} {ns : List Node} (hk : kind ≠ .number)
      (hns : ∀ c ∈ n :: ns, c.All Node.NumberLeaf) :
      ∀ m ∈ [Node.branch kind n ns], m.All Node.NumberLeaf :=
    List.forall_mem_singleton.2 (Node.all_iff.2 ⟨fun h => absurd h hk, hns⟩)
  have hstring (t : Token) : (stringNode t).All Node.NumberLeaf := by
    refine Node.all_iff.2 ⟨nofun, fun c hc => ?_⟩
    rcases mem_children_stringNode.1 hc with rfl | ⟨part, -, rfl⟩ | rfl
    · exact hleaf rfl
    · exact hleaf (children_pieceNode part)
    · exact hleaf rfl
  induction h with
  | number _ | negative _ _ _ => exact hnode nofun (List.forall_mem_singleton.2 (hleaf rfl))
  | string _ => exact hnode nofun (List.forall_mem_singleton.2 (hstring _))
  | name _ => exact List.forall_mem_singleton.2 (hleaf rfl)
  | group _ _ _ ih | conditional _ ih | bare _ _ ih | declarator _ ih => exact ih
  | array _ _ ih | block _ _ ih | return_ _ _ ih =>
    exact hnode nofun (List.forall_mem_cons.2 ⟨hmark _, ih⟩)
  | lambda _ _ _ ihhead ihbody =>
    refine hnode nofun (List.forall_mem_cons.2 ⟨hmark _, List.forall_mem_append.2 ⟨ihhead, ?_⟩⟩)
    exact List.forall_mem_singleton.2 (hin _ (ihbody _ List.mem_cons_self))
  | call _ _ _ ihcallee ihitems =>
    refine hnode nofun (List.forall_mem_cons.2 ⟨hin _ (ihcallee _ List.mem_cons_self), ?_⟩)
    exact List.forall_mem_cons.2 ⟨hmark _, ihitems⟩
  | access _ _ _ ih =>
    refine hnode nofun (List.forall_mem_cons.2 ⟨hin _ (ih _ List.mem_cons_self), ?_⟩)
    exact List.forall_mem_cons.2 ⟨hmark _, List.forall_mem_singleton.2 (hleaf rfl)⟩
  | binary _ _ _ ihleft ihright =>
    refine hnode nofun (List.forall_mem_cons.2 ⟨hin _ (ihleft _ List.mem_cons_self), ?_⟩)
    exact List.forall_mem_cons.2
      ⟨hmark _, List.forall_mem_singleton.2 (hin _ (ihright _ List.mem_cons_self))⟩
  | if_ _ _ _ _ _ _ ihcondition ihblock ihalternative =>
    refine hnode nofun (List.forall_mem_cons.2 ⟨hmark _, List.forall_mem_append.2 ⟨?_, ?_⟩⟩)
    · exact List.forall_mem_cons.2 ⟨hmark _, List.forall_mem_cons.2
        ⟨hin _ (ihcondition _ List.mem_cons_self), List.forall_mem_cons.2
          ⟨hmark _, List.forall_mem_singleton.2 (hin _ (ihblock _ List.mem_cons_self))⟩⟩⟩
    · exact ihalternative
  | noElse | noSemicolon | noInterfaces | noStatements =>
    exact fun n hn => absurd hn List.not_mem_nil
  | elseIf _ _ ih | elseBlock _ _ ih =>
    exact List.forall_mem_cons.2
      ⟨hmark _, List.forall_mem_singleton.2 (hin _ (ih _ List.mem_cons_self))⟩
  | arrow _ _ => exact List.forall_mem_cons.2 ⟨hmark _, List.forall_mem_singleton.2 (hmark _)⟩
  | parameter _ _ _ ih => exact List.forall_mem_cons.2 ⟨hmark _, List.forall_mem_cons.2 ⟨hleaf rfl, ih⟩⟩
  | parameters _ _ ih => exact List.forall_mem_cons.2 ⟨hleaf rfl, ih⟩
  | close _ | brace _ | semicolon _ => exact List.forall_mem_singleton.2 (hmark _)
  | last _ _ ih =>
    exact List.forall_mem_cons.2
      ⟨hoptional _ (ih _ List.mem_cons_self), List.forall_mem_singleton.2 (hmark _)⟩
  | item _ _ _ ihitem ihmore =>
    exact List.forall_mem_cons.2
      ⟨hoptional _ (ihitem _ List.mem_cons_self), List.forall_mem_cons.2 ⟨hmark _, ihmore⟩⟩
  | inner _ _ _ ih ihmore | interfaces _ _ ih ihmore | statements _ _ _ ih ihmore =>
    exact List.forall_mem_cons.2 ⟨ih _ List.mem_cons_self, ihmore⟩
  | declaration _ _ _ ih ihending =>
    exact hnode nofun
      (List.forall_mem_cons.2 ⟨hmark _, List.forall_mem_append.2 ⟨ih, ihending⟩⟩)
  | returnValue _ _ _ ih ihending =>
    exact hnode nofun (List.forall_mem_cons.2
      ⟨hmark _, List.forall_mem_cons.2 ⟨hin _ (ih _ List.mem_cons_self), ihending⟩⟩)
  | assignment _ _ _ _ ih ihending =>
    exact hnode nofun (List.forall_mem_cons.2 ⟨hleaf rfl, List.forall_mem_cons.2
      ⟨hmark _, List.forall_mem_cons.2 ⟨hin _ (ih _ List.mem_cons_self), ihending⟩⟩⟩)
  | plain _ _ ih ihending =>
    exact hnode nofun (List.forall_mem_cons.2 ⟨ih _ List.mem_cons_self, ihending⟩)
  | variable_ _ => exact hnode nofun (List.forall_mem_singleton.2 (hleaf rfl))
  | variableValue _ _ _ ih =>
    exact hnode nofun (List.forall_mem_cons.2 ⟨hleaf rfl, List.forall_mem_cons.2
      ⟨hmark _, List.forall_mem_singleton.2 (hin _ (ih _ List.mem_cons_self))⟩⟩)
  | declarators _ _ _ ih ihmore =>
    exact List.forall_mem_cons.2
      ⟨ih _ List.mem_cons_self, List.forall_mem_cons.2 ⟨hmark _, ihmore⟩⟩
  | interface_ _ _ _ _ _ ih =>
    exact hnode nofun (List.forall_mem_cons.2 ⟨hmark _, List.forall_mem_cons.2
      ⟨hin _ (hstring _), List.forall_mem_cons.2 ⟨hmark _, List.forall_mem_cons.2
        ⟨hleaf rfl, ih⟩⟩⟩⟩)

-- ==================================================================== trees

/-- A number of a tree covers the text of a number, behind a minus sign or
none. -/
theorem Tree.number_spelled {bounds : Bounds} {file : Option String} {source : String}
    {tree : Tree} (h : Tree.ofSource bounds file source = .ok tree) {n : Node}
    (hn : n ∈ tree.root.preorder) (hk : n.Is .number) :
    ∃ (sign : List Char) (k : Number), (sign = [] ∨ sign = ['-']) ∧
      n.bytes tree.source = Utf8.encode (sign ++ k.text) := by
  obtain ⟨hsource, list, htokens, ds, is, declared, inner, hlist, hd, hi, hroot⟩ :=
    Tree.ofSource_spells h
  obtain ⟨-, hstands, -⟩ := tokenize_places htokens
  have hlaid : Laid list.tokens (gathered declared ++ inner) := by
    rw [hlist]
    exact (laid_gathered hd.laid).append hi.laid
  have hnumber : ∀ c ∈ gathered declared ++ inner, c.All Node.NumberLeaf := by
    refine List.forall_mem_append.2 ⟨?_, hi.numberLeaf⟩
    cases declared with
    | nil => exact fun c hc => nomatch hc
    | cons d rest => exact List.forall_mem_singleton.2 (Node.all_iff.2 ⟨nofun, hd.numberLeaf⟩)
  obtain ⟨c, hc, hnc⟩ : ∃ c ∈ gathered declared ++ inner, n ∈ c.preorder := by
    rw [hroot] at hn
    rcases Node.mem_preorder_iff.1 hn with rfl | hbelow
    · cases hk.2
    · exact hbelow
  obtain ⟨text, hleaf⟩ :=
    hlaid.leaves List.infix_rfl hstands c hc n hnc (hnumber c hc n hnc hk.2)
  rw [hsource, hleaf.bytes_eq hstands]
  cases hleaf with
  | mark _ hmark | opening _ _ _ hmark | closing _ _ _ hmark =>
    rw [hk.1] at hmark
    cases hmark
  | word ht hkind =>
    rcases hkind with ⟨-, hname⟩ | ⟨hnumber, -⟩
    · cases hk.2.symm.trans hname.2
    · obtain ⟨k, hlexeme⟩ := tokenize_number htokens ht hnumber
      exact ⟨[], k, .inl rfl, by rw [hlexeme]; rfl⟩
  | @signed m t hmt hm ht =>
    obtain ⟨k, hlexeme⟩ :=
      tokenize_number htokens (hmt.subset (List.mem_cons_of_mem _ List.mem_cons_self)) ht
    have hminus : m.kind.spelling? = some "-" := by
      rw [hm]
      rfl
    have hspelled := (hstands m (hmt.subset List.mem_cons_self)).spelled hminus
    refine ⟨['-'], k, .inr rfl, ?_⟩
    rw [hlexeme, hspelled]
    rfl
  | piece _ _ _ hkind =>
    rcases hkind with ⟨-, hpiece⟩ | ⟨-, hpiece⟩
    · cases hk.2.symm.trans hpiece.2
    · cases hk.2.symm.trans hpiece.2

end SamScript
