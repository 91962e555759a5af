/-
Places of a text, counted three ways. A place is reached by reading a front of
the text (`Position.Within`); what it then says can be told from that front
alone (`Position.Behind`): its offset counts bytes, its line counts line feeds,
and its column counts the characters since the last of them.
-/
import SamScript.Proofs.Token.Places

namespace SamScript

-- ================================================================ places

/-- Whether a place is one of a text. -/
def Position.Within (whole : List Char) (p : Position) : Prop :=
  ∃ before rest, before ++ rest = whole ∧ p = ({} : Position).after before

/-- Whether a place is the one behind a front of a text. Its offset counts
bytes, its line counts line feeds, and its column counts the characters since
the last of them. -/
structure Position.Behind (before : List Char) (p : Position) : Prop where
  offset : p.offset = (Utf8.encode before).length
  line : p.line = before.count '\n' + 1
  column : p.column = (before.reverse.takeWhile (· ≠ '\n')).length + 1

theorem Position.Within.boundary {whole : List Char} {p : Position} (h : p.Within whole) :
    Utf8.Boundary whole p.offset := by
  obtain ⟨before, rest, hw, rfl⟩ := h
  rw [Position.offset_after]
  exact ⟨before, rest, hw, (Nat.zero_add _).symm⟩

/-- A place of a text is known by its offset. -/
theorem Position.Within.ext {whole : List Char} {p q : Position} (hp : p.Within whole)
    (hq : q.Within whole) (h : p.offset = q.offset) : p = q := by
  obtain ⟨a, b, hab, rfl⟩ := hp
  obtain ⟨c, d, hcd, rfl⟩ := hq
  rw [Position.offset_after, Position.offset_after] at h
  rw [Utf8.eq_of_width (hab.trans hcd.symm) (by omega)]

namespace Position

theorem line_after (p : Position) (text : List Char) :
    (p.after text).line = p.line + text.count '\n' := by
  induction text generalizing p with
  | nil => rfl
  | cons c rest ih =>
    rw [after_cons, ih]
    by_cases hc : c = '\n'
    · rw [advance, if_pos hc, hc, List.count_cons_self]
      dsimp only
      omega
    · rw [advance, if_neg hc, List.count_cons_of_ne hc]

/-- The induction is on the text backwards: only what follows the last line feed
counts. -/
theorem column_after_reverse (text : List Char) :
    (({} : Position).after text.reverse).column = (text.takeWhile (· ≠ '\n')).length + 1 := by
  induction text with
  | nil => rfl
  | cons c rest ih =>
    rw [List.reverse_cons, after_append, after_cons, after_nil]
    by_cases hc : c = '\n'
    · rw [advance, if_pos hc, List.takeWhile_cons_of_neg (by simpa using hc)]
      rfl
    · rw [advance, if_neg hc, List.takeWhile_cons_of_pos (by simpa using hc), ih]
      rfl

theorem behind_after (before : List Char) : (({} : Position).after before).Behind before where
  offset := by rw [offset_after, Utf8.length_encode, Nat.zero_add]
  line := by rw [line_after, Nat.add_comm]
  column := by
    have hcolumn := column_after_reverse before.reverse
    rwa [List.reverse_reverse] at hcolumn

variable {whole : List Char} {p : Position}

theorem Within.behind (h : p.Within whole) : ∃ before, before <+: whole ∧ p.Behind before := by
  obtain ⟨before, rest, hwhole, rfl⟩ := h
  exact ⟨before, ⟨rest, hwhole⟩, behind_after before⟩

theorem Within.offset_le (h : p.Within whole) : p.offset ≤ (Utf8.encode whole).length := by
  obtain ⟨before, rest, rfl, rfl⟩ := h
  rw [offset_after, Utf8.length_encode, Utf8.width_append]
  dsimp only
  omega

/-- Lines and columns are counted from one. -/
theorem Within.pos (h : p.Within whole) : 0 < p.line ∧ 0 < p.column := by
  obtain ⟨before, -, hbehind⟩ := h.behind
  rw [hbehind.line, hbehind.column]
  exact ⟨Nat.succ_pos _, Nat.succ_pos _⟩

end Position

-- ================================================================= spans

/-- Whether a span points at a stretch of a text: it begins behind a front of
the text and ends behind one that is no shorter. -/
def Span.PointsInto (text : List Char) (s : Span) : Prop :=
  s.start.offset ≤ s.stop.offset ∧ s.stop.offset ≤ (Utf8.encode text).length ∧
    (∃ before, before <+: text ∧ s.start.Behind before) ∧
    ∃ before, before <+: text ∧ s.stop.Behind before

/-- A sign and the number that it touches make up one stretch. -/
theorem Span.Covers.join {whole a b : List Char} {s t : Span} (hs : s.Covers whole a)
    (ht : t.Covers whole b) (h : s.stop.offset = t.start.offset) :
    Span.Covers whole (a ++ b) { s with stop := t.stop } := by
  obtain ⟨before, rest, hw, hstart, hstop⟩ := hs
  obtain ⟨before', rest', hw', hstart', hstop'⟩ := ht
  have hmeet : s.stop = t.start := by
    refine Position.Within.ext ⟨before ++ a, rest, hw, ?_⟩ ⟨before', b ++ rest', ?_, hstart'⟩ h
    · rw [hstop, hstart, Position.after_append]
    · rw [← hw', List.append_assoc]
  have hbefore : before ++ a = before' := by
    have hoff := h
    rw [hstop, hstart, hstart', ← Position.after_append, Position.offset_after,
      Position.offset_after] at hoff
    refine Utf8.eq_of_width (b := rest) (d := b ++ rest') ?_ (by omega)
    rw [hw, ← hw', List.append_assoc]
  refine ⟨before, rest', ?_, hstart, ?_⟩
  · rw [← List.append_assoc, hbefore, hw']
  · show t.stop = s.start.after (a ++ b)
    rw [Position.after_append, ← hstop, hmeet, hstop']

namespace Span

variable {whole part : List Char} {s : Span}

theorem pointsInto_of_within (hstart : s.start.Within whole) (hstop : s.stop.Within whole)
    (h : s.start.offset ≤ s.stop.offset) : s.PointsInto whole :=
  ⟨h, hstop.offset_le, hstart.behind, hstop.behind⟩

/-- The front of what a span covers. -/
theorem Covers.front {a b : List Char} (h : s.Covers whole (a ++ b)) :
    Span.Covers whole a ⟨s.start, s.start.after a, none⟩ := by
  obtain ⟨before, rest, hwhole, hstart, -⟩ := h
  exact ⟨before, b ++ rest, by rw [← hwhole]; simp, hstart, rfl⟩

/-- And what is behind that front. -/
theorem Covers.back {a b : List Char} (h : s.Covers whole (a ++ b)) :
    Span.Covers whole b ⟨s.start.after a, s.stop, none⟩ := by
  obtain ⟨before, rest, hwhole, hstart, hstop⟩ := h
  refine ⟨before ++ a, rest, by rw [← hwhole]; simp, ?_, ?_⟩
  · rw [hstart, Position.after_append]
  · rw [hstop, Position.after_append]

/-- The span of a part of a text points into it. -/
theorem Covers.pointsInto (h : s.Covers whole part) : s.PointsInto whole := by
  obtain ⟨before, rest, hwhole, hstart, hstop⟩ := h
  have hsplit : s.stop = ({} : Position).after (before ++ part) := by
    rw [hstop, hstart, Position.after_append]
  refine pointsInto_of_within ⟨before, part ++ rest, ?_, hstart⟩ ⟨_, rest, hwhole, hsplit⟩ ?_
  · rw [← List.append_assoc, hwhole]
  · rw [hstop, Position.offset_after]
    exact Nat.le_add_right _ _

end Span

end SamScript
