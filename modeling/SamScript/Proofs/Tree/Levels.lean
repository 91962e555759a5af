/-
How deep the brackets of some tokens nest. Where all of them are closed again, what
stands behind them is looked at from the depth that they began at (`Levels`), so the
depth of a whole is found from that of its parts, and a program that nests no deeper
than it may is parsed (`programWithin_of_deepest_le`).
-/
import SamScript.Proofs.Tree.Lockstep
import SamScript.Proofs.Tree.Printed

namespace SamScript.Parser

variable {k m : Nat} {ts us : List Token} {o c t : Token}

/-- The kinds that change how deep brackets nest. -/
def brackets : List TokenKind :=
  [.lparen, .lbracket, .lbrace, .rparen, .rbracket, .rbrace, .else_]

/-- Whether the brackets of some tokens are closed again and nest no deeper than this. -/
def Levels (k : Nat) (ts : List Token) : Prop :=
  ∀ depth found rest, ∃ found', deepest depth found (ts ++ rest) = deepest depth found' rest ∧
    found'.1 ≤ max found.1 (depth + k)

namespace Levels

theorem nil (k : Nat) : Levels k [] :=
  fun _ found _ => ⟨found, rfl, Nat.le_max_left _ _⟩

theorem append (h : Levels k ts) (h' : Levels k us) : Levels k (ts ++ us) := by
  intro depth found rest
  obtain ⟨mid, hmid, hle⟩ := h depth found (us ++ rest)
  obtain ⟨last, hlast, hle'⟩ := h' depth mid rest
  refine ⟨last, ?_, by omega⟩
  rw [List.append_assoc, hmid, hlast]

theorem mono (h : Levels k ts) (hle : k ≤ m) : Levels m ts := by
  intro depth found rest
  obtain ⟨found', hfound, hbound⟩ := h depth found rest
  exact ⟨found', hfound, by omega⟩

/-- A token that is no bracket. -/
theorem one (k : Nat) (h : t.kind ∉ brackets) : Levels k [t] := by
  intro depth found rest
  refine ⟨found, ?_, Nat.le_max_left _ _⟩
  simp only [brackets, List.mem_cons, List.not_mem_nil, or_false, not_or] at h
  rw [List.singleton_append, deepest_cons, if_neg, if_neg]
  · simp [h]
  · simp [deepens, h]

theorem cons (h : t.kind ∉ brackets) (hts : Levels k ts) : Levels k (t :: ts) :=
  append (one k h) hts

/-- Words that are no brackets, in print. -/
theorem printed (k : Nat) {a : List Char} {ls : List Lexeme} (hts : Printed a ls ts)
    (h : ∀ ℓ ∈ ls, ℓ.kind ∉ brackets) : Levels k ts := by
  induction ls generalizing ts with
  | nil =>
    rw [hts.nil]
    exact .nil k
  | cons ℓ ls ih =>
    rw [List.forall_mem_cons] at h
    obtain ⟨t, us, rfl, ht, hus⟩ := hts.cons
    exact cons (ht.kind ▸ h.1) (ih hus h.2)

/-- Brackets around tokens are one level more. -/
theorem bracketed (ho : o.kind = .lbracket) (hc : c.kind = .rbracket) (h : Levels k ts) :
    Levels (k + 1) (o :: (ts ++ [c])) := by
  intro depth found rest
  obtain ⟨found', hfound, hle⟩ := h (depth + 1)
    (if depth + 1 > found.1 then (depth + 1, some o) else found) (c :: rest)
  refine ⟨found', ?_, ?_⟩
  · rw [List.cons_append, List.append_assoc, List.singleton_append, deepest_cons, if_pos, hfound,
      deepest_cons, if_neg, if_pos, Nat.add_sub_cancel]
    · rw [hc]
      decide
    · simp [deepens, hc]
    · simp [deepens, ho]
  · split at hle <;> omega

end Levels

/-- A program whose brackets nest no deeper than they may. -/
theorem programWithin_of_deepest_le {bound : Option Nat} {list : TokenList}
    (h : ∀ limit ∈ bound, (deepest 0 (0, none) list.tokens).1 ≤ limit) :
    programWithin bound list = program list := by
  unfold programWithin
  split
  · rename_i limit depth t hdeep
    have hle := h limit rfl
    rw [hdeep] at hle
    rw [if_neg (Nat.not_lt.2 hle)]
  · rfl

end SamScript.Parser
