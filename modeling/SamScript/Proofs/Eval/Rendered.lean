/-
Rendered values are read back. Whole numbers, texts and arrays of them are rendered as an
expression of the language, which comes to the value again (`rendered_values_read_back`).
What carries the induction is `Value.Writes`: an expression that a value is rendered as,
in front of any text that cannot go on with a word of it; the brackets in it nest just as
the arrays do, and a node with its sketch comes to the value whatever the tree is.
-/
import SamScript.Proofs.Eval.Blame
import SamScript.Proofs.Eval.Literals
import SamScript.Proofs.Token.Divide
import SamScript.Proofs.Tree.Levels
import SamScript.Proofs.Tree.Roundtrip
import SamScript.Proofs.Value.Numbers
import SamScript.Proofs.Value.Roundtrip

namespace SamScript

open Abstract Scan

-- ================================================================= nesting

namespace Value

variable {φ : Type}

/-- A value that can be spelled out in a program: whole numbers, texts and arrays of them. -/
inductive Spellable : Value φ → Prop
  | int (n : Int64) : Spellable (.int n)
  | string (s : String) : Spellable (.string s)
  | array {items : List (Value φ)} : (∀ v ∈ items, v.Spellable) → Spellable (.array items)

mutual

/-- How deep the arrays of a value nest. -/
def nesting : Value φ → Nat
  | .array items => nestings items + 1
  | _ => 0

/-- How deep the arrays of some values nest at most. -/
def nestings : List (Value φ) → Nat
  | [] => 0
  | v :: rest => max v.nesting (nestings rest)

end

theorem nesting_le_nestings {v : Value φ} {items : List (Value φ)} (h : v ∈ items) :
    v.nesting ≤ nestings items := by
  induction items with
  | nil => cases h
  | cons w items ih =>
    rw [nestings]
    rcases List.mem_cons.1 h with rfl | h
    · exact Nat.le_max_left _ _
    · exact Nat.le_trans (ih h) (Nat.le_max_right _ _)

end Value

open SamScript.Parser

-- ============================================================= expressions

variable {φ : Type} [Callable φ] [DecidableEq φ]

/-- Whether a value is rendered as an expression that comes to it. The induction needs more
than that: the text is cut into the words of the expression in front of whatever follows
an item, and neither brackets nor operands nest deeper than the arrays ask for. -/
structure Value.Writes (v : Value φ) (e : Expression) : Prop where
  /-- The text is that of the expression, behind a gap and in front of more words. -/
  typeset : ∀ {gap r : List Char} {a : Char} {ls : List Lexeme}, Gap gap → Divides a →
    Lexeme.Typeset ls (a :: r) →
    Lexeme.Typeset (e.lexemes ++ ls) (gap ++ (v.renderNested.toList ++ a :: r))
  named : e.sketch.isNamed = true
  levels : ∀ {a : List Char} {ts : List Token}, Printed a e.lexemes ts → Levels v.nesting ts
  depth : ∀ {source : List UInt8} {n : Node} {field : Option Field},
    n.sketch source = e.sketch.inOptional field → n.operandDepth ≤ v.nesting + 3
  /-- A node that looks like the expression comes to the value, whatever tree it is in. -/
  comes : ∀ {env : Env φ} {call : Eval.Caller φ} {n : Node} {field : Option Field}
    (s : RunState φ), n.sketch env.source = e.sketch.inOptional field →
    Eval.valueOf env call n s = (.ok v, s)

section

variable {source : List UInt8} {n : Node} {kind : NodeKind} {ss : List Sketch}
  {field : Option Field}

/-- A named node over some children, in a role or none. -/
theorem of_sketch_inOptional (h : n.sketch source = (Sketch.branch kind ss).inOptional field) :
    n.Is kind ∧ n.field = field ∧ n.children.map (Node.sketch source) = ss := by
  cases field with
  | none | some => exact of_sketch_mk h

theorem Node.operandDepths_le {ns : List Node} {k : Nat} (h : ∀ c ∈ ns, c.operandDepth ≤ k) :
    operandDepths ns ≤ k := by
  induction ns with
  | nil => exact Nat.zero_le _
  | cons c ns ih =>
    rw [List.forall_mem_cons] at h
    rw [operandDepths]
    exact Nat.max_le.2 ⟨h.1, ih h.2⟩

theorem Node.operandDepth_le {k : Nat} (h : ∀ c ∈ n.children, c.operandDepth ≤ k) :
    n.operandDepth ≤ k + 1 := by
  cases n with
  | mk kind isNamed field extent children =>
    have := operandDepths_le h
    rw [operandDepth]
    split
    · exact Nat.zero_le _
    · change operandDepths children ≤ k at this
      omega

theorem Node.operandDepth_le_one (h : n.children = []) : n.operandDepth ≤ 1 :=
  operandDepth_le fun c hc => by rw [h] at hc; cases hc

theorem operandDepth_mark {text : List Char} (h : n.sketch source = .mark text) :
    n.operandDepth ≤ 1 :=
  n.operandDepth_le_one (of_sketch_mark h).2

end

namespace Value

-- ================================================================= numbers

/-- A value that is rendered as a number which has that value. -/
theorem writes_number {v : Value φ} (negative : Bool) (x : Number)
    (htext : v.renderNested.toList = (if negative then ['-'] else []) ++ x.text)
    (hvalue : Literal.number? v.renderNested.toList = .ok (some v)) :
    v.Writes (.number negative x) where
  typeset := by
    intro gap r a ls hgap ha h
    have hne : Lexeme.number x ≠ .sign := Lexeme.noConfusion
    rw [htext]
    cases negative with
    | false => exact .divided hgap hne ha h
    | true =>
      -- the sign is a word of its own, with nothing between it and the number
      refine .cons hgap (Lexeme.splits_spaced _ fun hne => absurd rfl hne)
        (fun _ => ((Lexeme.number x).splits_divided ha r).trivia) ?_
      exact Lexeme.Typeset.divided .nil hne ha h
  named := rfl
  levels := by
    intro a ts hts
    have hnumber : TokenKind.number ∉ brackets := by decide
    refine .printed _ hts ?_
    cases negative with
    | false => exact List.forall_mem_singleton.2 hnumber
    | true => exact List.forall_mem_cons.2 ⟨by decide, List.forall_mem_singleton.2 hnumber⟩
  depth := by
    intro source n field h
    obtain ⟨-, -, hchildren⟩ := of_sketch_inOptional h
    obtain ⟨word, hword, hsketch⟩ := List.map_eq_singleton_iff.1 hchildren
    have hle : n.operandDepth ≤ 1 + 1 := Node.operandDepth_le fun c hc => by
      rw [hword, List.mem_singleton] at hc
      rw [hc]
      exact Node.operandDepth_le_one (of_sketch_word rfl hsketch).2.2
    omega
  comes := by
    intro env call n field s h
    obtain ⟨hk, -, hchildren⟩ := of_sketch_inOptional h
    rw [htext] at hvalue
    exact Eval.valueOf_literal hk.2 (Eval.literal_number hchildren hvalue) s

theorem exists_writes_int (k : Int64) : ∃ e, (Value.int k : Value φ).Writes e := by
  have hrender : (Value.int k : Value φ).renderNested = toString k.toInt := rfl
  have hvalue : Literal.number? (Value.int k : Value φ).renderNested.toList =
      .ok (some (.int k : Value φ)) := by
    rw [hrender]
    exact Literal.number?_word k (length_toDigits_word k)
  let x : Number :=
    ⟨⟨Nat.toDigits 10 k.toInt.natAbs, Nat.toDigits_ne_nil, Decimal.isDigits_toDigits _⟩, none, none⟩
  have hx : x.text = Nat.toDigits 10 k.toInt.natAbs := List.append_nil _
  have htext := Decimal.toList_toString k.toInt
  by_cases hsign : 0 ≤ k.toInt
  · refine ⟨_, writes_number false x ?_ hvalue⟩
    rw [hrender, htext, if_pos hsign, hx]
    rfl
  · refine ⟨_, writes_number true x ?_ hvalue⟩
    rw [hrender, htext, if_neg hsign, hx]
    rfl

-- ================================================================= strings

/-- The quotes and the pieces of a string literal have nothing below them. -/
theorem childless_of_string {source : List UInt8} {n : Node} {quote : Char} {ps : List Piece}
    (h : n.sketch source = .string quote ps) : ∀ c ∈ n.children, c.children = [] := by
  intro c hc
  have hmem : c.sketch source ∈ n.children.map (Node.sketch source) := List.mem_map_of_mem hc
  rw [(of_sketch_branch h).2] at hmem
  rcases List.mem_cons.1 hmem with hquote | hmem
  · exact (of_sketch_mark hquote).2
  · rcases List.mem_append.1 hmem with hpiece | hquote
    · obtain ⟨⟨_ | _, text⟩, -, hpiece⟩ := List.mem_map.1 hpiece
      · exact (of_sketch_word rfl hpiece.symm).2.2
      · exact (of_sketch_word rfl hpiece.symm).2.2
    · exact (of_sketch_mark (List.mem_singleton.1 hquote)).2

/-- A text that a string literal is in print, and comes to. -/
theorem writes_string {text : String} (x : StringLiteral) (htext : x.text = (quote text).toList)
    (hdecode : Literal.decodePieces x.pieces = text.toList) :
    (Value.string text : Value φ).Writes (.string x) where
  typeset := by
    intro gap r a ls hgap ha h
    have hrender : (Value.string text : Value φ).renderNested = quote text := rfl
    rw [hrender, ← htext]
    exact .divided hgap Lexeme.noConfusion ha h
  named := rfl
  levels := by
    intro a ts hts
    have hstring : TokenKind.string ∉ brackets := by decide
    exact .printed _ hts (List.forall_mem_singleton.2 hstring)
  depth := by
    intro source n field h
    obtain ⟨-, -, hchildren⟩ := of_sketch_inOptional h
    obtain ⟨inner, hinner, hsketch⟩ := List.map_eq_singleton_iff.1 hchildren
    have hle : n.operandDepth ≤ 2 + 1 := Node.operandDepth_le fun c hc => by
      rw [hinner, List.mem_singleton] at hc
      rw [hc]
      exact Node.operandDepth_le fun c hc =>
        Node.operandDepth_le_one (childless_of_string hsketch c hc)
    omega
  comes := by
    intro env call n field s h
    obtain ⟨hk, -, hchildren⟩ := of_sketch_inOptional h
    have hliteral := Eval.literal_string hchildren
    rw [hdecode, String.ofList_toList] at hliteral
    exact Eval.valueOf_literal hk.2 hliteral s

theorem exists_writes_string (text : String) : ∃ e, (Value.string text : Value φ).Writes e := by
  obtain ⟨x, htext, hdecode⟩ := Literal.exists_literal text
  exact ⟨.string x, writes_string x htext hdecode⟩

-- ================================================================== arrays

variable {items : List (Value φ)} {es : List Expression}

/-- Items of an array, each with its expression, up to the bracket behind them. -/
theorem typeset_items (h : List.Forall₂ Writes items es) {ls : List Lexeme} {rest gap : List Char}
    (hgap : Gap gap) (hnone : items = [] → gap = []) (hrest : Lexeme.Typeset ls rest) :
    Lexeme.Typeset (commas (Expression.lexemesEach es) ++ .mark .rbracket rfl :: ls)
      (gap ++ ((", ".intercalate (renderItems items)).toList ++ ']' :: rest)) := by
  have hclose : Lexeme.Typeset (.mark .rbracket rfl :: ls) (']' :: rest) :=
    .mark .rbracket rfl (by decide) .nil hrest
  induction h generalizing gap with
  | nil =>
    rw [hnone rfl]
    exact hclose
  | @cons v e items es hv hitems ih =>
    cases hitems with
    | nil =>
      have hone : (", ".intercalate (renderItems [v])).toList = v.renderNested.toList := by
        simp [renderItems]
      rw [hone, Expression.lexemesEach, Expression.lexemesEach, commas_one]
      exact hv.typeset hgap divides_bracket hclose
    | @cons w f items es hw hitems =>
      -- the space behind the comma is the gap in front of the next item
      have hmore := ih (.blank List.mem_cons_self .nil : Gap [' ']) nofun
      have hcomma := Lexeme.Typeset.mark .comma rfl (by decide) .nil hmore
      have htypeset := hv.typeset hgap divides_comma hcomma
      rw [renderItems, renderItems, Json.toList_commas_cons, Expression.lexemesEach,
        Expression.lexemesEach, commas_cons_cons, List.append_assoc, List.append_assoc]
      exact htypeset

/-- The brackets of the items of an array. -/
theorem levels_items (h : List.Forall₂ Writes items es) {a : List Char} {ts : List Token}
    (hts : Printed a (commas (Expression.lexemesEach es)) ts) : Levels (nestings items) ts := by
  induction h generalizing ts with
  | nil =>
    cases Printed.nil hts
    exact .nil _
  | @cons v e items es hv hitems ih =>
    have hfirst : v.nesting ≤ nestings (v :: items) := nesting_le_nestings List.mem_cons_self
    cases hitems with
    | nil =>
      rw [Expression.lexemesEach, Expression.lexemesEach, commas_one] at hts
      exact (hv.levels hts).mono hfirst
    | @cons w f items es hw hitems =>
      rw [Expression.lexemesEach, Expression.lexemesEach, commas_cons_cons] at hts
      obtain ⟨us, vs, rfl, hus, hvs⟩ := hts.append
      obtain ⟨comma, vs, rfl, hcomma, hvs⟩ := hvs.cons
      have hkind : comma.kind = .comma := hcomma.kind
      have hmore : nestings (w :: items) ≤ nestings (v :: w :: items) := Nat.le_max_right _ _
      exact .append ((hv.levels hus).mono hfirst)
        (.cons (by rw [hkind]; decide) ((ih hvs).mono hmore))

/-- A sketch of an item is that of an expression which a value is rendered as. -/
theorem exists_item (h : List.Forall₂ Writes items es) {s : Sketch}
    (hs : s ∈ Expression.sketches es) : ∃ v ∈ items, ∃ e, v.Writes e ∧ s = e.sketch := by
  induction h with
  | nil => cases hs
  | @cons v e items es hv _ ih =>
    rw [Expression.sketches] at hs
    rcases List.mem_cons.1 hs with rfl | hs
    · exact ⟨v, List.mem_cons_self, e, hv, rfl⟩
    · obtain ⟨w, hw, hwrites⟩ := ih hs
      exact ⟨w, List.mem_cons_of_mem v hw, hwrites⟩

/-- Nodes with the sketches of the items come to the items. -/
theorem items_come (h : List.Forall₂ Writes items es) {env : Env φ} {call : Eval.Caller φ}
    {ns : List Node} (hns : ns.map (Node.sketch env.source) = Expression.sketches es)
    (s : RunState φ) :
    List.Forall₂ (fun n v => Eval.valueOf env call n s = (.ok v, s)) ns items := by
  induction h generalizing ns with
  | nil =>
    rw [List.map_eq_nil_iff.1 hns]
    exact .nil
  | @cons v e items es hv _ ih =>
    rw [Expression.sketches] at hns
    obtain ⟨n, ns, rfl, hn, hns⟩ := List.map_eq_cons_iff.1 hns
    have hnone : n.sketch env.source = e.sketch.inOptional none := hn
    exact .cons (hv.comes s hnone) (ih hns)

theorem writes_array (h : List.Forall₂ Writes items es) :
    (Value.array items).Writes (.array es) where
  typeset := by
    intro gap r a ls hgap ha hrest
    have hitems := typeset_items h .nil (fun _ => rfl) hrest
    have htypeset := Lexeme.Typeset.mark .lbracket rfl (by decide) hgap hitems
    have hrender : (Value.array items).renderNested.toList =
        '[' :: ((", ".intercalate (renderItems items)).toList ++ [']']) := by
      rw [renderNested]
      simp
    rw [hrender, Expression.lexemes]
    simp only [List.cons_append, List.append_assoc, List.nil_append]
    exact htypeset
  named := rfl
  levels := by
    intro a ts hts
    obtain ⟨o, ts, rfl, ho, hts⟩ := Printed.cons hts
    obtain ⟨us, c, rfl, hus, hc⟩ := hts.snoc
    exact .bracketed ho.mark_kind hc.mark_kind (levels_items h hus)
  depth := by
    intro source n field hsketch
    obtain ⟨-, -, hchildren⟩ := of_sketch_inOptional hsketch
    have hle : n.operandDepth ≤ nestings items + 3 + 1 := Node.operandDepth_le fun c hc => by
      have hmem : c.sketch source ∈ n.children.map (Node.sketch source) := List.mem_map_of_mem hc
      rw [hchildren, List.mem_cons, List.mem_append, List.mem_singleton] at hmem
      rcases hmem with hmark | hmem | hmark
      · exact Nat.le_trans (operandDepth_mark hmark) (by omega)
      · rcases Sketch.of_mem_commas hmem with hmem | hmark
        · obtain ⟨v, hv, e, hwrites, hsame⟩ := exists_item h hmem
          have hnone : c.sketch source = e.sketch.inOptional none := hsame
          have hdepth := hwrites.depth hnone
          have hnesting := nesting_le_nestings hv
          omega
        · exact Nat.le_trans (operandDepth_mark hmark) (by omega)
      · exact Nat.le_trans (operandDepth_mark hmark) (by omega)
    rw [nesting]
    omega
  comes := by
    intro env call n field s hsketch
    obtain ⟨hk, -, hchildren⟩ := of_sketch_inOptional hsketch
    have hnamed := n.named_of_sketch hchildren
    have hall : ∀ s ∈ Expression.sketches es, s.isNamed = true := fun s hs => by
      obtain ⟨v, -, e, hwrites, rfl⟩ := exists_item h hs
      exact hwrites.named
    have hmark (text : List Char) : ¬(Sketch.mark text).isNamed = true := Bool.false_ne_true
    rw [List.filter_cons_of_neg (hmark _), List.filter_append, Sketch.named_commas hall,
      List.filter_cons_of_neg (hmark _), List.filter_nil, List.append_nil] at hnamed
    exact Eval.valueOf_array hk.2 (Eval.values_eq (items_come h hnamed s))

theorem exists_writes_each (h : ∀ v ∈ items, ∃ e, v.Writes e) :
    ∃ es, List.Forall₂ Writes items es := by
  induction items with
  | nil => exact ⟨[], .nil⟩
  | cons v items ih =>
    rw [List.forall_mem_cons] at h
    obtain ⟨⟨e, he⟩, h⟩ := h
    obtain ⟨es, hes⟩ := ih h
    exact ⟨e :: es, .cons he hes⟩

/-- Every value that can be spelled out is rendered as an expression that comes to it. -/
theorem Spellable.exists_writes {v : Value φ} (h : v.Spellable) : ∃ e, v.Writes e := by
  induction h with
  | int n => exact exists_writes_int n
  | string s => exact exists_writes_string s
  | @array items _ ih =>
    obtain ⟨es, hes⟩ := exists_writes_each ih
    exact ⟨.array es, writes_array hes⟩

end Value

-- ============================================================ declarations

/-- A program that only declares a variable. -/
def Abstract.Program.declaring (x : Name) (value : Expression) : Program :=
  ⟨[], [.declaration (.valued x value) []]⟩

theorem Abstract.Program.lexemes_declaring (x : Name) (value : Expression) :
    (declaring x value).lexemes = .mark .let_ rfl :: .name x :: .mark .assign rfl ::
      (value.lexemes ++ [.mark .semicolon rfl]) := by
  simp [declaring, lexemes, Statement.lexemesAll, Statement.lexemes, Declarator.lexemesEach,
    Declarator.lexemes, commas_one]

section

variable {v : Value φ} {e : Expression} {x : Name} {env : Env φ} {call : Eval.Caller φ}
  {n : Node}

/-- A declarator with a value, by its children. -/
theorem of_sketch_declarator {source : List UInt8}
    (h : n.sketch source = (Declarator.valued x e).sketch) :
    n.Is .variableDeclarator ∧ ∃ name mark value, n.children = [name, mark, value] ∧
      name.sketch source = (Sketch.name x).inField .variable_ ∧
      mark.sketch source = .mark "=".toList ∧
      value.sketch source = e.sketch.inOptional (some .value) := by
  obtain ⟨hk, hchildren⟩ := of_sketch_branch h
  obtain ⟨name, rest, hname, hnamed, hrest⟩ := List.map_eq_cons_iff.1 hchildren
  obtain ⟨mark, rest, rfl, hmark, hrest⟩ := List.map_eq_cons_iff.1 hrest
  obtain ⟨value, rfl, hvalue⟩ := List.map_eq_singleton_iff.1 hrest
  exact ⟨hk, name, mark, value, hname, hnamed, hmark, hvalue⟩

theorem operandDepth_declarator {source : List UInt8} (hv : v.Writes e)
    (h : n.sketch source = (Declarator.valued x e).sketch) : n.operandDepth ≤ v.nesting + 4 := by
  obtain ⟨-, name, mark, value, hchildren, hname, hmark, hvalue⟩ := of_sketch_declarator h
  have hle : n.operandDepth ≤ v.nesting + 3 + 1 := Node.operandDepth_le fun c hc => by
    rw [hchildren] at hc
    simp only [List.mem_cons, List.not_mem_nil, or_false] at hc
    rcases hc with rfl | rfl | rfl
    · have := Node.operandDepth_le_one (of_sketch_leaf rfl hname).2.2.2
      omega
    · have := operandDepth_mark hmark
      omega
    · exact hv.depth hvalue
  omega

/-- A declarator with a value that is rendered binds the value. -/
theorem Eval.declarators_written (hv : v.Writes e)
    (h : n.sketch env.source = (Declarator.valued x e).sketch) (s : RunState φ) :
    Eval.declarators env call [n] s = (.ok (), { s with
      scopes := (s.scopes.declare (String.ofList x.text) .undefined).declare
        (String.ofList x.text) v }) := by
  obtain ⟨hk, name, mark, value, hchildren, hname, hmark, hvalue⟩ := of_sketch_declarator h
  obtain ⟨-, hrole, hbytes, -⟩ := of_sketch_leaf rfl hname
  have hbare : mark.field = none := Node.field_of_sketch hmark
  have hvalued : value.field = some .value :=
    (Node.field_of_sketch hvalue).trans (Sketch.field_inField _ _)
  have hvariable : n.child? .variable_ = some name := by
    simp [Node.child?, hchildren, hrole]
  have hinner : n.child? .value = some value := by
    simp [Node.child?, hchildren, hrole, hbare, hvalued]
  rw [declarators_cons hk.2 hvariable, Env.text_of_bytes hbytes, Run.pure_bind, Run.bind_apply]
  dsimp only [Run.modifyScopes]
  rw [Run.bind_apply, hinner, initial, Run.bind_apply, hv.comes _ hvalue]
  rw [declarators]
  rfl

/-- The statement that declares a variable. -/
theorem Eval.statement_written (hv : v.Writes e)
    (hbound : ∀ limit ∈ env.bounds.operands, v.nesting + 5 ≤ limit)
    (h : n.sketch env.source = (Statement.declaration (.valued x e) []).sketch)
    (s : RunState φ) :
    Eval.statement env call n s = (.ok (.value .undefined), { s with
      scopes := (s.scopes.declare (String.ofList x.text) .undefined).declare
        (String.ofList x.text) v }) := by
  obtain ⟨hk, hchildren⟩ := of_sketch_branch h
  obtain ⟨mark, rest, hnode, hmark, hrest⟩ := List.map_eq_cons_iff.1 hchildren
  obtain ⟨declarator, rest, rfl, hdeclarator, hrest⟩ := List.map_eq_cons_iff.1 hrest
  obtain ⟨close, rfl, hclose⟩ := List.map_eq_singleton_iff.1 hrest
  have hnamed : n.named = [declarator] := by
    rw [Node.named, hnode, List.filter_cons_of_neg (by simp [(of_sketch_mark hmark).1]),
      List.filter_cons_of_pos (of_sketch_declarator hdeclarator).1.1,
      List.filter_cons_of_neg (by simp [(of_sketch_mark hclose).1]), List.filter_nil]
  have hdepth : n.operandDepth ≤ v.nesting + 4 + 1 := Node.operandDepth_le fun c hc => by
    rw [hnode] at hc
    simp only [List.mem_cons, List.not_mem_nil, or_false] at hc
    rcases hc with rfl | rfl | rfl
    · have := operandDepth_mark hmark
      omega
    · exact operandDepth_declarator hv hdeclarator
    · have := operandDepth_mark hclose
      omega
  have hwithin : Run.within env.bounds.operands (fun _ => n.operandDepth) s = (.ok (), s) :=
    Run.within_eq fun limit hlimit => Nat.le_trans hdepth (hbound limit hlimit)
  rw [statement_declaration hk.2]
  unfold Run.located
  rw [Run.bind_apply, hwithin]
  dsimp only
  rw [Run.bind_apply, hnamed, declarators_written hv hdeclarator]
  rfl

/-- A program that declares a variable with a value that is rendered. -/
theorem Eval.program_written (hv : v.Writes e)
    (hbound : ∀ limit ∈ env.bounds.operands, v.nesting + 5 ≤ limit)
    (h : env.root.sketch env.source = (Program.declaring x e).sketch) (s : RunState φ) :
    Eval.program env s = (.ok (), { s with
      scopes := (s.scopes.declare (String.ofList x.text) .undefined).declare
        (String.ofList x.text) v }) := by
  obtain ⟨hk, hchildren⟩ := of_sketch_branch h
  obtain ⟨declaration, hroot, hdeclaration⟩ := List.map_eq_singleton_iff.1 hchildren
  obtain ⟨hkind, -⟩ := of_sketch_branch hdeclaration
  have hone : env.root.named = [declaration] := by
    rw [Node.named, hroot, List.filter_cons_of_pos hkind.1, List.filter_nil]
  have hnone : declaration.kind ≠ .interfaces := by
    rw [hkind.2]
    decide
  rw [program_eq hk.2, declarations, mainStatements, hone]
  dsimp only
  rw [if_neg hnone, if_neg hnone, interfaces, Run.pure_bind, topLevel, Run.bind_apply]
  unfold blamed
  rw [statement_written hv hbound hdeclaration]
  rfl

/-- The text of a program that declares a variable with a value that is rendered. -/
theorem Value.Writes.typeset_declaring (hv : v.Writes e) (x : Name) :
    Lexeme.Typeset (Program.declaring x e).lexemes
      ("let ".toList ++ (x.text ++ (" = ".toList ++ (v.renderNested.toList ++ [';'])))) := by
  have hgap : Gap [' '] := .blank List.mem_cons_self .nil
  have hend : Lexeme.Typeset [.mark .semicolon rfl] [';'] :=
    .mark .semicolon rfl (by decide) .nil .nil
  have hvalue := hv.typeset hgap divides_semicolon hend
  have hassign := Lexeme.Typeset.divided hgap
    (Lexeme.noConfusion : Lexeme.mark .assign rfl ≠ .sign) divides_space hvalue
  have hname := Lexeme.Typeset.divided hgap
    (Lexeme.noConfusion : Lexeme.name x ≠ .sign) divides_space hassign
  have hlet := Lexeme.Typeset.divided .nil
    (Lexeme.noConfusion : Lexeme.mark .let_ rfl ≠ .sign) divides_space hname
  rw [Program.lexemes_declaring]
  exact hlet

/-- The brackets of such a program nest as the arrays of the value do. -/
theorem Value.Writes.levels_declaring (hv : v.Writes e) (x : Name) {a : List Char}
    {ts : List Token} (hts : Printed a (Program.declaring x e).lexemes ts) :
    Levels v.nesting ts := by
  have hlexemes : Printed a ([.mark .let_ rfl, .name x, .mark .assign rfl] ++
      (e.lexemes ++ [.mark .semicolon rfl])) ts := by
    rwa [Program.lexemes_declaring] at hts
  have hname : TokenKind.identifier ∉ brackets := by decide
  obtain ⟨us, vs, rfl, hus, hvs⟩ := hlexemes.append
  obtain ⟨vs, ws, rfl, hvs, hws⟩ := hvs.append
  refine .append (.printed _ hus ?_) (.append (hv.levels hvs) (.printed _ hws ?_))
  · simp only [List.forall_mem_cons]
    exact ⟨by decide, hname, by decide, List.forall_mem_nil _⟩
  · exact List.forall_mem_singleton.2 (by decide)

/-- Such a program is read, if its brackets do not nest too deep. -/
theorem Value.Writes.ofSource_declaring (hv : v.Writes e) (x : Name) {bounds : Bounds}
    (hbound : ∀ limit ∈ bounds.brackets, v.nesting ≤ limit) (file : Option String)
    {source : String} (hsource : source.toList =
      "let ".toList ++ (x.text ++ (" = ".toList ++ (v.renderNested.toList ++ [';'])))) :
    ∃ tree, Tree.ofSource bounds file source = .ok tree ∧
      tree.root.sketch tree.source = (Program.declaring x e).sketch := by
  have htypeset := hv.typeset_declaring x
  rw [← hsource] at htypeset
  obtain ⟨list, htokens, hspell⟩ := Lexeme.tokenize_typeset file htypeset
  have hprinted : Printed source.toList (Program.declaring x e).lexemes list.tokens :=
    ⟨hspell, (tokenize_places htokens).2.1⟩
  have hdeep : (deepest 0 (0, none) list.tokens).1 ≤ v.nesting := by
    obtain ⟨found, hfound, hle⟩ := hv.levels_declaring x hprinted 0 (0, none) []
    rw [List.append_nil] at hfound
    rw [hfound, deepest]
    simpa using hle
  exact ofSource_spelled _ htokens hspell
    (programWithin_of_deepest_le fun limit hlimit => Nat.le_trans hdeep (hbound limit hlimit))

end

-- ================================================================= programs

/-- Arrays of whole numbers, texts and arrays, however they nest, are read back from their
text: a program that declares a variable with the text of one succeeds and binds it to the
same value, wherever there is room for how deep it nests. -/
theorem rendered_values_read_back (items : List Value) (hitems : ∀ v ∈ items, v.Spellable)
    (r : Surroundings)
    (hbrackets : ∀ limit ∈ r.bounds.brackets, (Value.array items).nesting ≤ limit)
    (hoperands : ∀ limit ∈ r.bounds.operands, (Value.array items).nesting + 5 ≤ limit) :
    runSource r ("let x = " ++ (Value.array items).render ++ ";") =
      .ok { scopes := { inner := [], globals := [("x", .array items)] } } := by
  obtain ⟨e, hv⟩ := (Value.Spellable.array hitems).exists_writes
  let x : Name := ⟨'x', [], rfl, nofun, rfl⟩
  have hsource : ("let x = " ++ (Value.array items).render ++ ";").toList =
      "let ".toList ++ (x.text ++ (" = ".toList ++
        ((Value.array items).renderNested.toList ++ [';']))) := by
    rw [String.toList_append, String.toList_append, List.append_assoc]
    rfl
  obtain ⟨tree, htree, hsketch⟩ := hv.ofSource_declaring x hbrackets r.file hsource
  let env := r.env tree.root tree.source
  have hroot : env.root.sketch env.source = (Program.declaring x e).sketch := hsketch
  have hbound : ∀ limit ∈ env.bounds.operands, (Value.array items).nesting + 5 ≤ limit := hoperands
  have hrun : evaluate r tree.root tree.source =
      (.ok (), { scopes := { inner := [], globals := [("x", .array items)] } }) :=
    Eval.program_written hv hbound hroot {}
  unfold runSource
  rw [htree]
  dsimp only
  rw [hrun]

/-- The least whole number, a text with all that is escaped and more, and arrays without
items, one inside the other. -/
theorem rendered_values_read_back_escapes :
    let items : List Value :=
      [.int (-9223372036854775808), .string "\"\\n\n\x00\r😀'", .array [.array []]]
    let r : Surroundings :=
      { host := ⟨fun _ => .error .nullByte, fun _ _ => .error .badVariable⟩, bounds := .ordinary }
    (∀ v ∈ items, v.Spellable) ∧ (Value.array items).nesting = 3 ∧
      (Value.array items).render =
        "[-9223372036854775808, \"\\\"\\\\n\\n\x00\r😀'\", [[]]]" ∧
      runSource r ("let x = " ++ (Value.array items).render ++ ";") =
        .ok { scopes := { inner := [], globals := [("x", .array items)] } } := by
  intro items r
  have hitems : ∀ v ∈ items, v.Spellable := by
    simp only [items, List.forall_mem_cons]
    exact ⟨.int _, .string _, .array (List.forall_mem_singleton.2 (.array nofun)), nofun⟩
  have hnesting : (Value.array items).nesting = 3 := by
    simp [items, Value.nesting, Value.nestings]
  refine ⟨hitems, hnesting, by decide +kernel, ?_⟩
  refine rendered_values_read_back items hitems r (fun limit hlimit => ?_) fun limit hlimit => ?_
  · cases hlimit
    rw [hnesting]
    decide
  · cases hlimit
    rw [hnesting]
    decide

end SamScript
