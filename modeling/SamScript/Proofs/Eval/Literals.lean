/-
What literals come to. A literal is evaluated from its sketch alone: a string is what
its pieces stand for together (`literal_string`), a number what its word spells
(`literal_number`), and an array what its items come to, one after the other. Nothing is
changed by it and nothing else is looked at, so the same holds at any place of any tree.
-/
import SamScript.Proofs.Eval.Equations
import SamScript.Proofs.Tree.Abstract
import SamScript.Proofs.Value.Quoting
import Mathlib.Data.List.Forall2

namespace SamScript

-- ================================================================ sketches

namespace Sketch

theorem isNamed_piece (p : Scan.Piece) : (piece p).isNamed = true := by
  obtain ⟨_ | _, text⟩ := p <;> rfl

/-- The named children of a string literal are its pieces. -/
theorem named_string (quote : Char) (ps : List Scan.Piece) :
    (mark [quote] :: (ps.map piece ++ [mark [quote]])).filter isNamed = ps.map piece := by
  have hpieces : (ps.map piece).filter isNamed = ps.map piece :=
    List.filter_eq_self.2 (List.forall_mem_map.2 fun p _ => isNamed_piece p)
  have hmark : ¬ (mark [quote]).isNamed = true := Bool.false_ne_true
  rw [List.filter_cons_of_neg hmark, List.filter_append, hpieces, List.filter_cons_of_neg hmark,
    List.filter_nil, List.append_nil]

/-- The named ones among sketches with a comma between them. -/
theorem named_commas {ss : List Sketch} (h : ∀ s ∈ ss, s.isNamed = true) :
    (commas ss).filter isNamed = ss := by
  induction ss with
  | nil => rfl
  | cons s ss ih =>
    rw [List.forall_mem_cons] at h
    cases ss with
    | nil => exact List.filter_cons_of_pos h.1
    | cons s' ss =>
      show (s :: mark ",".toList :: commas (s' :: ss)).filter isNamed = _
      rw [List.filter_cons_of_pos h.1, List.filter_cons_of_neg (by decide), ih h.2]

/-- What stands among sketches with a comma between them. -/
theorem of_mem_commas {s : Sketch} {ss : List Sketch} (h : s ∈ commas ss) :
    s ∈ ss ∨ s = .mark ",".toList := by
  induction ss with
  | nil => cases h
  | cons s' ss ih =>
    cases ss with
    | nil => exact .inl h
    | cons t ss =>
      have hmem : s ∈ s' :: mark ",".toList :: commas (t :: ss) := h
      rcases List.mem_cons.1 hmem with rfl | hmem
      · exact .inl List.mem_cons_self
      · rcases List.mem_cons.1 hmem with rfl | hmem
        · exact .inr rfl
        · exact (ih hmem).imp (List.mem_cons_of_mem s') id

end Sketch

namespace Eval

variable {φ : Type} {env : Env φ} {n : Node}

-- ================================================================= strings

/-- A piece of a string literal comes to what it stands for. -/
theorem piece_eq {p : Scan.Piece} (h : n.sketch env.source = .piece p) :
    piece env n = pure (Literal.decodePiece p) := by
  obtain ⟨_ | _, text⟩ := p
  · obtain ⟨hk, hbytes, -⟩ := of_sketch_word rfl h
    rw [piece, hk.2]
    dsimp only
    rw [Env.text_of_bytes hbytes, Run.pure_bind, String.toList_ofList]
    rfl
  · obtain ⟨hk, hbytes, -⟩ := of_sketch_word rfl h
    rw [piece, hk.2]
    dsimp only
    rw [Env.text_of_bytes hbytes, Run.pure_bind, String.toList_ofList]
    rfl

theorem pieces_eq {ns : List Node} {ps : List Scan.Piece}
    (h : ns.map (Node.sketch env.source) = ps.map Sketch.piece) :
    pieces env ns = pure (Literal.decodePieces ps) := by
  induction ps generalizing ns with
  | nil =>
    rw [List.map_eq_nil_iff.1 h]
    rfl
  | cons p ps ih =>
    obtain ⟨n, ns, rfl, hn, hns⟩ := List.map_eq_cons_iff.1 h
    rw [pieces, piece_eq hn, Run.pure_bind, ih hns, Run.pure_bind]
    rfl

/-- A string literal comes to what its pieces stand for. -/
theorem literal_string {quote : Char} {ps : List Scan.Piece}
    (h : n.children.map (Node.sketch env.source) = [.string quote ps]) :
    literal env n = pure (.string (String.ofList (Literal.decodePieces ps))) := by
  obtain ⟨inner, hinner, hsketch⟩ := List.map_eq_singleton_iff.1 h
  obtain ⟨hk, hchildren⟩ := of_sketch_branch hsketch
  have hnamed : n.named = [inner] := by
    rw [Node.named, hinner, List.filter_cons_of_pos hk.1, List.filter_nil]
  have hpieces := inner.named_of_sketch hchildren
  rw [Sketch.named_string] at hpieces
  have hkind : (expectKind .string (some inner) : Run φ Node) = pure inner := if_pos hk.2
  rw [literal, hnamed]
  dsimp only
  rw [hk.2]
  dsimp only
  rw [stringText, hkind, Run.pure_bind, pieces_eq hpieces]
  rfl

-- ================================================================= numbers

/-- A number comes to what its word spells. -/
theorem literal_number {text : List Char} {v : Value φ}
    (h : n.children.map (Node.sketch env.source) = [.word .number text])
    (hv : Literal.number? text = .ok (some v)) : literal env n = pure v := by
  obtain ⟨inner, hinner, hsketch⟩ := List.map_eq_singleton_iff.1 h
  obtain ⟨hk, hbytes, -⟩ := of_sketch_word rfl hsketch
  have hnamed : n.named = [inner] := by
    rw [Node.named, hinner, List.filter_cons_of_pos hk.1, List.filter_nil]
  rw [literal, hnamed]
  dsimp only
  rw [hk.2]
  dsimp only
  rw [Env.text_of_bytes hbytes, Run.pure_bind, number, String.toList_ofList, hv]

-- ================================================================== values

variable [Callable φ] [DecidableEq φ] {call : Caller φ} {v : Value φ}

/-- What an expression that is a literal comes to, if the literal comes to it. -/
theorem valueOf_literal (hk : n.kind = .literal) (hv : literal env n = pure v)
    (s : RunState φ) : valueOf env call n s = (.ok v, s) := by
  rw [valueOf, expr_literal hk, hv]
  rfl

/-- An array comes to what its items come to. -/
theorem valueOf_array {items : List (Value φ)} (hk : n.kind = .arrayExpression)
    {s : RunState φ} (hitems : values env call n.named s = (.ok items, s)) :
    valueOf env call n s = (.ok (.array items), s) := by
  rw [valueOf, expr_array hk, Run.bind_apply]
  unfold Run.located
  rw [Run.bind_apply, hitems]
  rfl

/-- Items that each come to a value and change nothing. -/
theorem values_eq {ns : List Node} {items : List (Value φ)} {s : RunState φ}
    (h : List.Forall₂ (fun n v => valueOf env call n s = (.ok v, s)) ns items) :
    values env call ns s = (.ok items, s) := by
  induction h with
  | nil =>
    rw [values]
    rfl
  | @cons n v ns items hn _ ih =>
    rw [values, Run.bind_apply, hn]
    dsimp only
    rw [Run.bind_apply, ih]
    rfl

end Eval

end SamScript
