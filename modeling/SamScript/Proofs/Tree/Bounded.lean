/-
Parsing by numbers stays among its tokens. Wherever it begins, at the place of
a token or at the end of the program, each production does what the parser of
lists does with the tokens from there on (`Follows`): it ends with the same
node, further on and not past the end, or with the same fault. So it never
reads beyond the entries, never takes the end, and one level of recursion for
each token that is left is enough (`Ways.RightAt`, by induction on the
levels: a step lemma for each production, over ways that are right at every
place further on).
-/
import SamScript.Proofs.Tree.Indexed
import SamScript.Proofs.Tree.Lockstep
import SamScript.Tree.OfSource

namespace SamScript.Indexed

open Reader

variable {α β : Type} {list : TokenList} {i j offset : Nat}

-- ================================================================== places

/-- What is at a place of a program: a token with others behind it, or the
end. -/
inductive At (list : TokenList) (i : Nat) : Prop where
  | token (t : Token) (hlt : i < list.tokens.length)
      (hdrop : list.tokens.drop i = t :: list.tokens.drop (i + 1))
      (hentry : (entries list)[i]? = some (.token t))
  | stop (hi : i = list.tokens.length) (hdrop : list.tokens.drop i = [])
      (hentry : (entries list)[i]? = some (.stop list.stop))

theorem at_place (h : i ≤ list.tokens.length) : At list i := by
  by_cases hlt : i < list.tokens.length
  · refine .token list.tokens[i] hlt (List.drop_eq_getElem_cons hlt) ?_
    rw [entries, List.getElem?_append_left (by simpa using hlt)]
    simp [hlt]
  · obtain rfl : i = list.tokens.length := by omega
    refine .stop rfl List.drop_length ?_
    simp [entries]

theorem entry_of_drop {t : Token} {rest : List Token} (h : list.tokens.drop i = t :: rest) :
    i < list.tokens.length ∧ rest = list.tokens.drop (i + 1) ∧
      (entries list)[i]? = some (.token t) := by
  have hle : i ≤ list.tokens.length := by
    by_contra hgt
    rw [List.drop_eq_nil_of_le (by omega)] at h
    cases h
  cases at_place hle with
  | token u hlt hdrop hentry =>
    rw [hdrop] at h
    cases h
    exact ⟨hlt, rfl, hentry⟩
  | stop _ hdrop =>
    rw [hdrop] at h
    cases h

section

variable {e : Entry} {t : Token}

theorem peek_eq (offset : Nat) (h : (entries list)[i + offset]? = some e) :
    peek list offset i = .ok (e, i) := by
  rw [peek, h]

theorem check_eq (offset : Nat) (kind : TokenKind) (h : (entries list)[i + offset]? = some e) :
    check list kind offset i = .ok (e.isKind kind, i) :=
  bind_ok (peek_eq offset h)

section

variable (offset : Nat) {kind : TokenKind} (x y : Reader α)

theorem check_true (h : (entries list)[i + offset]? = some (.token t)) (hk : t.kind = kind) :
    (do if ← check list kind offset then x else y : Reader α) i = x i := by
  rw [bind_ok (check_eq offset kind h), Entry.isKind_token, decide_eq_true hk, if_pos rfl]

theorem check_false (h : (entries list)[i + offset]? = some (.token t)) (hk : t.kind ≠ kind) :
    (do if ← check list kind offset then x else y : Reader α) i = y i := by
  rw [bind_ok (check_eq offset kind h), Entry.isKind_token, decide_eq_false hk,
    if_neg Bool.false_ne_true]

theorem check_stop {span : Span} (h : (entries list)[i + offset]? = some (.stop span)) :
    (do if ← check list kind offset then x else y : Reader α) i = y i := by
  rw [bind_ok (check_eq offset kind h), Entry.isKind_stop, if_neg Bool.false_ne_true]

end

theorem advance_eq (h : (entries list)[i]? = some (.token t)) :
    advance list i = .ok (t, i + 1) := by
  rw [advance, h]

theorem expect_eq (kind : TokenKind) (expected : Expected)
    (h : (entries list)[i]? = some (.token t)) (hk : t.kind = kind) :
    expect list kind expected i = .ok (t, i + 1) := by
  rw [expect, check_true 0 _ _ h hk, advance_eq h]

theorem fail_eq (expected : Expected) (h : (entries list)[i]? = some e) :
    (fail list expected : Reader α) i = .error (.fault (e.missing expected)) :=
  bind_ok (peek_eq 0 h)

end

-- =============================================================== following

/-- Whether a reader by numbers came to what a reader of lists came to. The
place that it is at now is that of the tokens left. -/
inductive Follows (list : TokenList) {bound : Nat} :
    Except Halt (α × Nat) → Except ParseError (Parser.Taken bound α) → Prop
  | ok (value : α) (j : Nat) (hj : j ≤ list.tokens.length)
      (h : (list.tokens.drop j).length < bound) :
      Follows list (.ok (value, j)) (.ok ⟨value, list.tokens.drop j, h⟩)
  | fault (e : ParseError) : Follows list (.error (.fault e)) (.error e)

namespace Follows

variable {m n : Nat}

theorem here {value : α} {ts : List Token} {h : ts.length < m} (hts : list.tokens.drop j = ts)
    (hj : j ≤ list.tokens.length) : Follows list (.ok (value, j)) (.ok ⟨value, ts, h⟩) := by
  subst hts
  exact .ok value j hj h

theorem bind {x : Reader α} {f : α → Reader β} {y : Except ParseError (Parser.Taken m α)}
    {g : Parser.Taken m α → Except ParseError (Parser.Taken n β)} (hx : Follows list (x i) y)
    (hf : ∀ value j h, j ≤ list.tokens.length →
      Follows list (f value j) (g ⟨value, list.tokens.drop j, h⟩)) :
    Follows list ((x >>= f) i) (y >>= g) := by
  generalize hr : x i = r at hx
  cases hx with
  | ok value j hj h =>
    rw [bind_ok hr]
    exact hf value j h hj
  | fault e =>
    rw [bind_error hr]
    exact .fault e

/-- The bound of what was left does not matter. -/
theorem widen {x : Except Halt (α × Nat)} {y : Except ParseError (Parser.Taken m α)}
    (hx : Follows list x y) (h : m ≤ n) :
    Follows list x (y >>= fun r => pure (r.widen h) : Except ParseError (Parser.Taken n α)) := by
  cases hx with
  | ok value j hj h' => exact .ok value j hj _
  | fault e => exact .fault e

theorem bind_fault {x : Reader α} {f : α → Reader β} {e : ParseError}
    (hx : Follows list (x i) (.error e : Except ParseError (Parser.Taken m α))) :
    Follows list ((x >>= f) i) (.error e : Except ParseError (Parser.Taken n β)) := by
  generalize hr : x i = r at hx
  cases hx
  rw [bind_error hr]
  exact .fault e

theorem fail (expected : Expected) {ts : List Token} (hts : list.tokens.drop i = ts)
    (h : i ≤ list.tokens.length) :
    Follows list ((Indexed.fail list expected : Reader α) i)
      (.error (Parser.missing list.stop expected ts) : Except ParseError (Parser.Taken m α)) := by
  subst hts
  cases at_place h with
  | token t hlt hdrop hentry =>
    rw [fail_eq expected hentry, hdrop]
    exact .fault _
  | stop hi hdrop hentry =>
    rw [fail_eq expected hentry, hdrop]
    exact .fault _

theorem expect (kind : TokenKind) (expected : Expected) {ts : List Token}
    (hts : list.tokens.drop i = ts) (h : i ≤ list.tokens.length) :
    Follows list (Indexed.expect list kind expected i)
      (Parser.expect list.stop kind expected ts) := by
  cases at_place h with
  | token t hlt hdrop hentry =>
    obtain rfl := hts.symm.trans hdrop
    by_cases hk : t.kind = kind
    · rw [expect_eq kind expected hentry hk, Parser.expect, if_pos hk]
      exact .ok t (i + 1) hlt _
    · rw [Indexed.expect, check_false 0 _ _ hentry hk, Parser.expect, if_neg hk]
      exact .fail expected hts h
  | stop hi hdrop hentry =>
    obtain rfl := hts.symm.trans hdrop
    rw [Indexed.expect, check_stop 0 _ _ hentry]
    exact .fail expected hts h

end Follows

-- ========================================================== single tokens

theorem lastBefore_drop (hij : i < j) (hj : j ≤ list.tokens.length) :
    Parser.lastBefore (list.tokens.drop i) (list.tokens.drop j) = list.tokens[j - 1]? := by
  have hlength : (list.tokens.drop i).length - (list.tokens.drop j).length = j - i := by
    simp only [List.length_drop]
    omega
  rw [Parser.lastBefore, hlength, List.getLast?_eq_getElem?, List.length_take, List.length_drop,
    Nat.min_eq_left (by omega), List.getElem?_take_of_lt (by omega), List.getElem?_drop]
  congr 1
  omega

theorem follows_eq (kind : TokenKind) (hpos : 0 < i) (h : i ≤ list.tokens.length) :
    follows list kind i = .ok ((list.tokens[i - 1]?).any (·.kind = kind), i) := by
  have hlt : i - 1 < list.tokens.length := by omega
  have hentry : (entries list)[i - 1]? = some (.token list.tokens[i - 1]) := by
    rw [entries, List.getElem?_append_left (by simpa using hlt)]
    simp [hlt]
  rw [follows, if_neg (by omega), hentry, List.getElem?_eq_getElem hlt]
  rfl

/-- At the end of the program no semicolon is needed. -/
theorem finish_stop (hpos : 0 < i) (hi : i = list.tokens.length) :
    finish list i = .ok ([], i) := by
  subst hi
  have hentry : (entries list)[list.tokens.length]? = some (.stop list.stop) := by simp [entries]
  rw [finish, check_stop 0 _ _ hentry, bind_ok (follows_eq _ hpos (Nat.le_refl _)),
    bind_ok (peek_eq 0 hentry), if_pos (by simp)]
  rfl

theorem finish_follows {ts : List Token} (hts : list.tokens.drop i = ts) (hij : i < j)
    (hj : j ≤ list.tokens.length) (h : (list.tokens.drop j).length < ts.length) :
    Follows list (finish list j) (Parser.finish list.stop ts (list.tokens.drop j) h) := by
  have hlast := lastBefore_drop hij hj
  rw [hts] at hlast
  generalize hus : list.tokens.drop j = us at hlast h
  cases at_place hj with
  | token t hlt hdrop hentry =>
    obtain rfl := hus.symm.trans hdrop
    rw [Parser.finish]
    by_cases hk : t.kind = .semicolon
    · rw [finish, check_true 0 _ _ hentry hk, bind_ok (advance_eq hentry), if_pos hk]
      exact .ok _ (j + 1) hlt _
    · rw [finish, check_false 0 _ _ hentry hk, bind_ok (follows_eq _ (by omega) hj),
        bind_ok (peek_eq 0 hentry), ← hlast, if_neg hk]
      by_cases hend : t.kind = .rbrace ∨
          (Parser.lastBefore ts (t :: list.tokens.drop (j + 1))).any (·.kind = .rbrace)
      · rw [if_pos hend, if_pos (by simpa using hend)]
        exact .here hus hj
      · rw [if_neg hend, if_neg (by simpa using hend)]
        exact .fail .semicolon hus hj
  | stop hi hdrop hentry =>
    obtain rfl := hus.symm.trans hdrop
    rw [finish_stop (by omega) hi]
    exact .here hus hj

-- ============================================================== lookahead

/-- Whether tokens begin with a closing parenthesis and an arrow. -/
def Closes : List Token → Bool
  | a :: b :: _ => a.kind = .rparen && b.kind = .doubleArrow
  | _ => false

theorem closesAhead_eq (h : i + offset ≤ list.tokens.length) :
    closesAhead list offset i = .ok (Closes (list.tokens.drop (i + offset)), i) := by
  cases at_place h with
  | token a hlt hdrop hentry =>
    rw [hdrop]
    by_cases ha : a.kind = .rparen
    · rw [closesAhead, check_true offset _ _ hentry ha]
      have hnext : i + offset + 1 ≤ list.tokens.length := hlt
      cases at_place hnext with
      | token b hlt' hdrop' hentry' =>
        rw [check_eq (offset + 1) _ hentry', hdrop']
        simp [Closes, ha]
      | stop hi hdrop' hentry' =>
        rw [check_eq (offset + 1) _ hentry', hdrop']
        rfl
    · rw [closesAhead, check_false offset _ _ hentry ha]
      cases list.tokens.drop (i + offset + 1) with
      | nil => rfl
      | cons b rest => simp [Closes, ha, pure_apply]
  | stop hi hdrop hentry =>
    rw [closesAhead, check_stop offset _ _ hentry, hdrop]
    rfl

/-- Without a comma in front, only the end of a head can follow. -/
theorem isSome_lambdaTail? {ts : List Token} (h : ∀ t ∈ ts.head?, t.kind ≠ .comma) :
    (Parser.lambdaTail? ts).isSome = Closes ts := by
  rcases ts with _ | ⟨a, _ | ⟨b, rest⟩⟩
  · rfl
  · rfl
  · have ha : a.kind ≠ .comma := h a rfl
    rw [Parser.lambdaTail?, if_neg fun hab => ha hab.1]
    by_cases hab : a.kind = .rparen ∧ b.kind = .doubleArrow
    · simp [Closes, hab]
    · rw [if_neg hab]
      simpa [Closes] using hab

/-- The loop of the lookahead stops as soon as there is a level for each token
ahead, and does not move. -/
theorem tailAhead_eq (levels : Nat) : ∀ offset, i + offset ≤ list.tokens.length →
    list.tokens.length - (i + offset) < levels →
    tailAhead list levels offset i =
      .ok ((Parser.lambdaTail? (list.tokens.drop (i + offset))).isSome, i) := by
  induction levels with
  | zero =>
    intro offset h hlevels
    omega
  | succ levels ih =>
    intro offset h hlevels
    have hcloses := closesAhead_eq h
    cases at_place h with
    | token a hlt hdrop hentry =>
      by_cases ha : a.kind = .comma
      · rw [tailAhead, check_true offset _ _ hentry ha]
        have hnext : i + offset + 1 ≤ list.tokens.length := hlt
        cases at_place hnext with
        | token b hlt' hdrop' hentry' =>
          rw [hdrop, hdrop', Parser.lambdaTail?]
          by_cases hb : b.kind = .identifier
          · rw [check_true (offset + 1) _ _ hentry' hb, if_pos ⟨ha, hb⟩, Option.isSome_map]
            exact ih (offset + 2) (by omega) (by omega)
          · rw [check_false (offset + 1) _ _ hentry' hb, if_neg fun h => hb h.2,
              if_neg (by simp [ha])]
            rfl
        | stop hi hdrop' hentry' =>
          rw [check_stop (offset + 1) _ _ hentry', hdrop, hdrop']
          rfl
      · rw [tailAhead, check_false offset _ _ hentry ha, hcloses, isSome_lambdaTail?]
        simpa [hdrop] using ha
    | stop hi hdrop hentry =>
      rw [tailAhead, check_stop offset _ _ hentry, hcloses, hdrop]
      rfl

/-- The lookahead for the head of a lambda finds one where there is one, stops,
and does not move. -/
theorem lambdaAhead_eq {levels : Nat} (h : i < list.tokens.length)
    (hlevels : list.tokens.length - i ≤ levels) :
    lambdaAhead list levels i =
      .ok ((Parser.lambdaHead? (list.tokens.drop (i + 1))).isSome, i) := by
  have hnext : i + 1 ≤ list.tokens.length := h
  have hcloses := closesAhead_eq hnext
  cases at_place hnext with
  | token t hlt hdrop hentry =>
    rw [hdrop, Parser.lambdaHead?]
    by_cases ht : t.kind = .identifier
    · rw [lambdaAhead, check_true 1 _ _ hentry ht, tailAhead_eq levels 2 (by omega) (by omega),
        if_pos ht, Option.isSome_map]
    · rw [lambdaAhead, check_false 1 _ _ hentry ht, hcloses, hdrop, if_neg ht]
      by_cases hclose : t.kind = .rparen
      · rw [if_pos hclose, isSome_lambdaTail?]
        simp [hclose]
      · rw [if_neg hclose]
        cases list.tokens.drop (i + 1 + 1) with
        | nil => rfl
        | cons b rest => simp [Closes, hclose]
  | stop hi hdrop hentry =>
    rw [lambdaAhead, check_stop 1 _ _ hentry, hcloses, hdrop]
    rfl

-- ============================================================= productions

/-- Whether a reader by numbers that may take nothing came to what a reader of
lists came to. -/
inductive Reaches (list : TokenList) :
    Except Halt (α × Nat) → Except ParseError (α × List Token) → Prop
  | ok (value : α) (j : Nat) (hj : j ≤ list.tokens.length) :
      Reaches list (.ok (value, j)) (.ok (value, list.tokens.drop j))
  | fault (e : ParseError) : Reaches list (.error (.fault e)) (.error e)

theorem Follows.reaches {m : Nat} {x : Reader α} {f : α → Reader β}
    {y : Except ParseError (Parser.Taken m α)}
    {g : Parser.Taken m α → Except ParseError (β × List Token)} (hx : Follows list (x i) y)
    (hf : ∀ value j h, j ≤ list.tokens.length →
      Reaches list (f value j) (g ⟨value, list.tokens.drop j, h⟩)) :
    Reaches list ((x >>= f) i) (y >>= g) := by
  generalize hr : x i = r at hx
  cases hx with
  | ok value j hj h =>
    rw [bind_ok hr]
    exact hf value j h hj
  | fault e =>
    rw [bind_error hr]
    exact .fault e

theorem Reaches.bind {x : Reader α} {f : α → Reader β} {y : Except ParseError (α × List Token)}
    {g : α × List Token → Except ParseError (β × List Token)} (hx : Reaches list (x i) y)
    (hf : ∀ value j, j ≤ list.tokens.length →
      Reaches list (f value j) (g (value, list.tokens.drop j))) :
    Reaches list ((x >>= f) i) (y >>= g) := by
  generalize hr : x i = r at hx
  cases hx with
  | ok value j hj =>
    rw [bind_ok hr]
    exact hf value j hj
  | fault e =>
    rw [bind_error hr]
    exact .fault e

/-- Whether the productions begun at a place come to what those of lists come to
with the tokens from there on. -/
structure Ways.RightAt (w : Ways) (list : TokenList) (i : Nat) : Prop where
  binary : ∀ least,
    Follows list (w.binary least i) (Parser.binary list.stop least (list.tokens.drop i))
  operators : ∀ least left {bound} (h : (list.tokens.drop i).length < bound),
    Follows list (w.operators least left i) (Parser.operators list.stop least bound left _ h)
  suffixes : ∀ before {bound} (h : (list.tokens.drop i).length < bound),
    Follows list (w.suffixes before i) (Parser.suffixes list.stop bound before _ h)
  listed : ∀ field close expected, Follows list (w.listed field close expected i)
    (Parser.listed list.stop field close expected (list.tokens.drop i))
  parameters : ∀ {nodes after}, Parser.lambdaTail? (list.tokens.drop i) = some (nodes, after) →
    ∃ names a b j, nodes = names ++ [.anonymous a, .anonymous b] ∧
      w.parameters i = .ok (names, j) ∧ i ≤ j ∧ list.tokens.drop j = a :: b :: after ∧
      a.kind = .rparen ∧ b.kind = .doubleArrow
  conditional : ∀ {t after}, list.tokens.drop i = t :: after →
    Follows list (w.conditional i) (Parser.conditional list.stop t after)
  block : Follows list (w.block i) (Parser.block list.stop (list.tokens.drop i))
  blockItems : Follows list (w.blockItems i) (Parser.blockItems list.stop (list.tokens.drop i))
  declarators : Follows list (w.declarators i) (Parser.declarators list.stop (list.tokens.drop i))
  interfaces : Reaches list (w.interfaces i) (Parser.interfaces list.stop (list.tokens.drop i))
  statements : w.statements i =
    ((Parser.statements list.stop (list.tokens.drop i)).map (·, list.tokens.length)).mapError
      .fault

section

variable {w : Ways} {levels : Nat}

theorem Ways.RightAt.expression (h : w.RightAt list i) :
    Follows list (w.binary 0 i) (Parser.expression list.stop (list.tokens.drop i)) := by
  rw [Parser.expression]
  exact h.binary 0

/-- Whether they do so at every place behind one. -/
def Ways.RightBehind (w : Ways) (list : TokenList) (i : Nat) : Prop :=
  ∀ j, i < j → j ≤ list.tokens.length → w.RightAt list j

namespace Ways.RightBehind

theorem mono (hw : w.RightBehind list i) (h : i ≤ j) : w.RightBehind list j :=
  fun k hk hle => hw k (by omega) hle

/-- What a production left of the tokens is further on. -/
theorem lt_of_left (h : (list.tokens.drop j).length < (list.tokens.drop i).length) : i < j := by
  simp only [List.length_drop] at h
  omega

variable (hw : w.RightBehind list i)

include hw

-- -------------------------------------------------------------- expressions

theorem names {nodes : List Node} {after : List Token} (hlt : i < list.tokens.length)
    (hhead : Parser.lambdaHead? (list.tokens.drop (i + 1)) = some (nodes, after)) :
    ∃ names a b j, nodes = names ++ [.anonymous a, .anonymous b] ∧
      w.namesBy list (i + 1) = .ok (names, j) ∧ i < j ∧ list.tokens.drop j = a :: b :: after ∧
      a.kind = .rparen ∧ b.kind = .doubleArrow := by
  have hnext : i + 1 ≤ list.tokens.length := hlt
  cases at_place hnext with
  | token u hlt' hdrop' hentry' =>
    rw [hdrop', Parser.lambdaHead?] at hhead
    by_cases hu : u.kind = .identifier
    · rw [if_pos hu] at hhead
      obtain ⟨⟨more, rest⟩, htail, heq⟩ := Option.map_eq_some_iff.1 hhead
      cases heq
      obtain ⟨names, a, b, j, rfl, hnames, hle, hleft, ha, hb⟩ :=
        (hw (i + 1 + 1) (by omega) hlt').parameters htail
      refine ⟨_ :: names, a, b, j, rfl, ?_, by omega, hleft, ha, hb⟩
      rw [Ways.namesBy, check_true 0 _ _ hentry' hu, bind_ok (advance_eq hentry'), bind_ok hnames]
      rfl
    · rw [if_neg hu] at hhead
      by_cases hclose : u.kind = .rparen
      · rw [if_pos hclose] at hhead
        cases hmore : list.tokens.drop (i + 1 + 1) with
        | nil =>
          rw [hmore] at hhead
          cases hhead
        | cons b rest =>
          rw [hmore, Parser.lambdaTail?, if_neg (by simp [hclose])] at hhead
          by_cases hb : u.kind = .rparen ∧ b.kind = .doubleArrow
          · rw [if_pos hb] at hhead
            cases hhead
            refine ⟨[], u, b, i + 1, rfl, ?_, by omega, by rw [hdrop', hmore], hb⟩
            rw [Ways.namesBy, check_false 0 _ _ hentry' hu]
            rfl
          · rw [if_neg hb] at hhead
            cases hhead
      · rw [if_neg hclose] at hhead
        cases hhead
  | stop hi hdrop' hentry' =>
    rw [hdrop'] at hhead
    cases hhead

theorem lambda {t : Token} {head : List Node} {after : List Token} {bound : Nat}
    (hlt : i < list.tokens.length) (hentry : (entries list)[i]? = some (.token t))
    (hhead : Parser.lambdaHead? (list.tokens.drop (i + 1)) = some (head, after))
    (hbound : after.length < bound) :
    Follows list (w.lambdaBy list i)
      (Parser.block list.stop after >>= fun body =>
        pure (⟨.branch .lambdaExpression (.anonymous t) (head ++ [body.value.inField .body]),
          body.rest, Nat.lt_trans body.shorter hbound⟩ : Parser.Taken bound Node)) := by
  obtain ⟨names, a, b, j, rfl, hnames, hij, hleft, ha, hb⟩ := hw.names hlt hhead
  obtain ⟨hj, hrest, hentryj⟩ := entry_of_drop hleft
  obtain ⟨hj', rfl, hentryj'⟩ := entry_of_drop hrest.symm
  rw [Ways.lambdaBy, bind_ok (advance_eq hentry), bind_ok hnames,
    bind_ok (expect_eq _ _ hentryj ha), bind_ok (expect_eq _ _ hentryj' hb)]
  refine ((hw (j + 1 + 1) (by omega) hj').block).bind ?_
  intro body k h hk
  exact .ok _ k hk _

theorem group {t : Token} (hlt : i < list.tokens.length)
    (hentry : (entries list)[i]? = some (.token t)) {bound : Nat}
    (hbound : (list.tokens.drop (i + 1)).length < bound) :
    Follows list (w.groupBy list i)
      (Parser.expression list.stop (list.tokens.drop (i + 1)) >>= fun inner =>
        Parser.expect list.stop .rparen .closeParen inner.rest >>= fun closing =>
          pure (⟨inner.value, closing.rest,
            Nat.lt_trans closing.shorter (Nat.lt_trans inner.shorter hbound)⟩ :
              Parser.Taken bound Node)) := by
  rw [Ways.groupBy, bind_ok (advance_eq hentry)]
  refine (hw (i + 1) (by omega) hlt).expression.bind ?_
  intro inner j h hj
  refine (Follows.expect .rparen .closeParen rfl hj).bind ?_
  intro closing k h' hk
  exact .ok inner k hk _

theorem alternative (hi : i ≤ list.tokens.length) {bound : Nat}
    (h : (list.tokens.drop i).length < bound) :
    Follows list (w.alternativeBy list i)
      (Parser.alternative? list.stop bound (list.tokens.drop i) h) := by
  generalize hts : list.tokens.drop i = ts at h
  cases at_place hi with
  | token t hlt hdrop hentry =>
    obtain rfl := hts.symm.trans hdrop
    by_cases ht : t.kind = .else_
    · rw [Ways.alternativeBy, check_true 0 _ _ hentry ht, bind_ok (advance_eq hentry)]
      have hnext : i + 1 ≤ list.tokens.length := hlt
      have hright := hw (i + 1) (by omega) hlt
      generalize hus : list.tokens.drop (i + 1) = us at hdrop hts h
      cases at_place hnext with
      | token u hlt' hdrop' hentry' =>
        obtain rfl := hus.symm.trans hdrop'
        rw [Parser.alternative?, if_pos ht]
        by_cases hu : u.kind = .if_
        · rw [check_true 0 _ _ hentry' hu, if_pos hu]
          refine (hright.conditional hus).bind ?_
          intro inner j hlen hj
          exact .ok _ j hj _
        · have hblock := hright.block
          rw [hus] at hblock
          rw [check_false 0 _ _ hentry' hu, if_neg hu]
          refine hblock.bind ?_
          intro inner j hlen hj
          exact .ok _ j hj _
      | stop hi' hdrop' hentry' =>
        obtain rfl := hus.symm.trans hdrop'
        have hnone : Parser.block list.stop [] =
            .error (Parser.missing list.stop .openBrace []) := by
          rw [Parser.block]
          rfl
        have hblock := hright.block
        rw [hus, hnone] at hblock
        rw [check_stop 0 _ _ hentry', Parser.alternative?.eq_def]
        dsimp only
        rw [if_pos ht]
        exact hblock.bind_fault
    · rw [Ways.alternativeBy, check_false 0 _ _ hentry ht, Parser.alternative?.eq_def]
      dsimp only
      rw [if_neg ht]
      exact .here hts hi
  | stop hi hdrop hentry =>
    obtain rfl := hts.symm.trans hdrop
    rw [Ways.alternativeBy, check_stop 0 _ _ hentry, Parser.alternative?.eq_def]
    exact .here hts (by omega)

theorem conditional {t : Token} {after : List Token}
    (hdrop : list.tokens.drop i = t :: after) :
    Follows list (w.conditionalBy list i) (Parser.conditional list.stop t after) := by
  obtain ⟨hlt, rfl, hentry⟩ := entry_of_drop hdrop
  rw [Ways.conditionalBy, bind_ok (advance_eq hentry), Parser.conditional]
  refine (Follows.expect .lparen .openAfterIf rfl hlt).bind ?_
  intro opening j₁ h₁ hj₁
  have hlt₁ := lt_of_left h₁
  refine (hw j₁ (by omega) hj₁).expression.bind ?_
  intro condition j₂ h₂ hj₂
  have hlt₂ := lt_of_left h₂
  refine (Follows.expect .rparen .closeParen rfl hj₂).bind ?_
  intro closing j₃ h₃ hj₃
  have hlt₃ := lt_of_left h₃
  refine ((hw j₃ (by omega) hj₃).block).bind ?_
  intro consequence j₄ h₄ hj₄
  have hlt₄ := lt_of_left h₄
  refine ((hw.mono (by omega)).alternative hj₄ _).bind ?_
  intro alternative j₅ h₅ hj₅
  exact .ok _ j₅ hj₅ _

theorem primary (hi : i ≤ list.tokens.length) (hlevels : list.tokens.length - i ≤ levels) :
    Follows list (w.primaryBy list levels i)
      (Parser.primary list.stop (list.tokens.drop i)) := by
  generalize hts : list.tokens.drop i = ts
  cases at_place hi with
  | token t hlt hdrop hentry =>
    obtain rfl := hts.symm.trans hdrop
    rw [Ways.primaryBy, bind_ok (peek_eq 0 hentry), Parser.primary.eq_def]
    dsimp only
    generalize hk : t.kind = kind
    cases kind with
    | number =>
      dsimp only
      rw [bind_ok (advance_eq hentry)]
      exact .ok _ (i + 1) hlt _
    | minus =>
      dsimp only
      have hnext : i + 1 ≤ list.tokens.length := hlt
      cases at_place hnext with
      | token n hlt' hdrop' hentry' =>
        rw [hdrop'] at hts ⊢
        rw [bind_ok (peek_eq 1 hentry')]
        dsimp only
        by_cases hn : n.kind = .number ∧ Parser.touches t n
        · rw [if_pos hn, if_pos hn, Ways.negativeBy, bind_ok (advance_eq hentry),
            bind_ok (advance_eq hentry')]
          exact .ok _ (i + 1 + 1) hlt' _
        · rw [if_neg hn, if_neg hn]
          exact .fail .expression hts hi
      | stop hi' hdrop' hentry' =>
        rw [hdrop'] at hts ⊢
        rw [bind_ok (peek_eq 1 hentry')]
        exact .fail .expression hts hi
    | string =>
      dsimp only
      rw [bind_ok (advance_eq hentry)]
      exact .ok _ (i + 1) hlt _
    | identifier =>
      dsimp only
      rw [bind_ok (advance_eq hentry)]
      exact .ok _ (i + 1) hlt _
    | lparen =>
      dsimp only
      have hahead := lambdaAhead_eq hlt hlevels
      split
      · rename_i head after hhead
        rw [hhead] at hahead
        rw [bind_ok hahead, Option.isSome_some, if_pos rfl]
        exact hw.lambda hlt hentry hhead
          (Nat.lt_succ_of_lt (Parser.length_of_lambdaHead? hhead))
      · rename_i hhead
        rw [hhead] at hahead
        rw [bind_ok hahead, Option.isSome_none, if_neg Bool.false_ne_true]
        exact hw.group hlt hentry (Nat.lt_succ_self _)
    | lbracket =>
      dsimp only
      rw [Ways.arrayBy, bind_ok (advance_eq hentry)]
      refine ((hw (i + 1) (by omega) hlt).listed _ _ _).bind ?_
      intro items j h hj
      exact .ok _ j hj _
    | if_ =>
      exact (hw.conditional hts).widen _
    | _ => exact .fail .expression hts hi
  | stop hi' hdrop hentry =>
    obtain rfl := hts.symm.trans hdrop
    rw [Ways.primaryBy, bind_ok (peek_eq 0 hentry), Parser.primary.eq_def]
    exact .fail .expression hts hi

theorem suffixes (before : Node) (hi : i ≤ list.tokens.length) {bound : Nat}
    (h : (list.tokens.drop i).length < bound) :
    Follows list (w.suffixesBy list before i)
      (Parser.suffixes list.stop bound before (list.tokens.drop i) h) := by
  generalize hts : list.tokens.drop i = ts at h
  cases at_place hi with
  | token t hlt hdrop hentry =>
    obtain rfl := hts.symm.trans hdrop
    rw [Parser.suffixes]
    by_cases hopen : t.kind = .lparen
    · rw [Ways.suffixesBy, check_true 0 _ _ hentry hopen, if_pos hopen, Ways.callBy,
        bind_ok (advance_eq hentry)]
      refine ((hw (i + 1) (by omega) hlt).listed _ _ _).bind ?_
      intro items j hlen hj
      have hij := lt_of_left hlen
      exact (hw j (by omega) hj).suffixes _ _
    · rw [Ways.suffixesBy, check_false 0 _ _ hentry hopen, if_neg hopen]
      by_cases hdot : t.kind = .dot
      · rw [check_true 0 _ _ hentry hdot, if_pos hdot, Ways.accessBy, bind_ok (advance_eq hentry)]
        refine (Follows.expect .identifier .attributeName rfl hlt).bind ?_
        intro name j hlen hj
        have hij := lt_of_left hlen
        exact (hw j (by omega) hj).suffixes _ _
      · rw [check_false 0 _ _ hentry hdot, if_neg hdot]
        exact .here hts hi
  | stop hi' hdrop hentry =>
    obtain rfl := hts.symm.trans hdrop
    rw [Ways.suffixesBy, check_stop 0 _ _ hentry, check_stop 0 _ _ hentry, Parser.suffixes]
    exact .here hts hi

theorem operators (least : Nat) (left : Node) (hi : i ≤ list.tokens.length) {bound : Nat}
    (h : (list.tokens.drop i).length < bound) :
    Follows list (w.operatorsBy list least left i)
      (Parser.operators list.stop least bound left (list.tokens.drop i) h) := by
  generalize hts : list.tokens.drop i = ts at h
  cases at_place hi with
  | token t hlt hdrop hentry =>
    obtain rfl := hts.symm.trans hdrop
    rw [Ways.operatorsBy, bind_ok (peek_eq 0 hentry), Parser.operators]
    dsimp only
    cases Parser.precedence? t.kind with
    | none => exact .here hts hi
    | some p =>
      by_cases hp : least ≤ p
      · dsimp only
        rw [if_pos hp, if_pos hp, bind_ok (advance_eq hentry)]
        refine ((hw (i + 1) (by omega) hlt).binary (p + 1)).bind ?_
        intro right j hlen hj
        have hij := lt_of_left hlen
        exact (hw j (by omega) hj).operators least _ _
      · dsimp only
        rw [if_neg hp, if_neg hp]
        exact .here hts hi
  | stop hi' hdrop hentry =>
    obtain rfl := hts.symm.trans hdrop
    rw [Ways.operatorsBy, bind_ok (peek_eq 0 hentry), Parser.operators]
    exact .here hts hi

theorem binary (least : Nat) (hi : i ≤ list.tokens.length)
    (hlevels : list.tokens.length - i ≤ levels) :
    Follows list (w.binaryBy list levels least i)
      (Parser.binary list.stop least (list.tokens.drop i)) := by
  rw [Ways.binaryBy, Parser.binary, Parser.postfixExpr, bind_assoc]
  refine (hw.primary hi hlevels).bind ?_
  intro first j h hj
  have hij := lt_of_left h
  refine ((hw.mono (by omega)).suffixes first hj h).bind ?_
  intro left k h' hk
  have hik := lt_of_left h'
  exact (hw.mono (by omega)).operators least left hk h'

theorem expression (hi : i ≤ list.tokens.length) (hlevels : list.tokens.length - i ≤ levels) :
    Follows list (w.binaryBy list levels 0 i)
      (Parser.expression list.stop (list.tokens.drop i)) := by
  rw [Parser.expression]
  exact hw.binary 0 hi hlevels

theorem items (field : Option Field) (close : TokenKind) (expected : Expected)
    (hi : i ≤ list.tokens.length) (hlevels : list.tokens.length - i ≤ levels) :
    Follows list (w.itemsBy list levels field close expected i)
      (Parser.items list.stop field close expected (list.tokens.drop i)) := by
  rw [Ways.itemsBy, Parser.items]
  refine (hw.expression hi hlevels).bind ?_
  intro item j h hj
  have hij := lt_of_left h
  generalize hus : list.tokens.drop j = us at h
  cases at_place hj with
  | token t hlt hdrop hentry =>
    obtain rfl := hus.symm.trans hdrop
    dsimp only
    by_cases hcomma : t.kind = .comma
    · rw [check_true 0 _ _ hentry hcomma, bind_ok (advance_eq hentry), if_pos hcomma]
      refine ((hw (j + 1) (by omega) hlt).listed _ _ _).bind ?_
      intro more k h' hk
      exact .ok _ k hk _
    · rw [check_false 0 _ _ hentry hcomma, if_neg hcomma]
      by_cases hclose : t.kind = close
      · rw [bind_ok (expect_eq _ _ hentry hclose), if_pos hclose]
        exact .ok _ (j + 1) hlt _
      · have hexpect := Follows.expect close expected hus hj
        rw [Parser.expect, if_neg hclose] at hexpect
        rw [if_neg hclose]
        exact hexpect.bind_fault
  | stop hj' hdrop hentry =>
    obtain rfl := hus.symm.trans hdrop
    dsimp only
    rw [check_stop 0 _ _ hentry]
    exact (Follows.expect close expected hus hj).bind_fault

theorem listed (field : Option Field) (close : TokenKind) (expected : Expected)
    (hi : i ≤ list.tokens.length) (hlevels : list.tokens.length - i ≤ levels) :
    Follows list (w.listedBy list levels field close expected i)
      (Parser.listed list.stop field close expected (list.tokens.drop i)) := by
  have hitems := hw.items field close expected hi hlevels
  generalize hts : list.tokens.drop i = ts at hitems
  cases at_place hi with
  | token t hlt hdrop hentry =>
    obtain rfl := hts.symm.trans hdrop
    rw [Ways.listedBy, Parser.listed]
    by_cases hclose : t.kind = close
    · rw [check_true 0 _ _ hentry hclose, bind_ok (advance_eq hentry), if_pos hclose]
      exact .ok _ (i + 1) hlt _
    · rw [check_false 0 _ _ hentry hclose, if_neg hclose]
      exact hitems
  | stop hi' hdrop hentry =>
    obtain rfl := hts.symm.trans hdrop
    rw [Ways.listedBy, check_stop 0 _ _ hentry, Parser.listed]
    exact hitems

-- --------------------------------------------------------------- statements

theorem declarator (hi : i ≤ list.tokens.length) :
    Follows list (w.declaratorBy list i)
      (Parser.declarator list.stop (list.tokens.drop i)) := by
  rw [Ways.declaratorBy, Parser.declarator]
  refine (Follows.expect .identifier .variableName rfl hi).bind ?_
  intro name j h hj
  have hij := lt_of_left h
  generalize hus : list.tokens.drop j = us at h
  cases at_place hj with
  | token t hlt hdrop hentry =>
    obtain rfl := hus.symm.trans hdrop
    dsimp only
    by_cases hassign : t.kind = .assign
    · rw [check_true 0 _ _ hentry hassign, bind_ok (advance_eq hentry), if_pos hassign]
      refine (hw (j + 1) (by omega) hlt).expression.bind ?_
      intro value k h' hk
      exact .ok _ k hk _
    · rw [check_false 0 _ _ hentry hassign, if_neg hassign]
      exact .here hus hj
  | stop hj' hdrop hentry =>
    obtain rfl := hus.symm.trans hdrop
    dsimp only
    rw [check_stop 0 _ _ hentry]
    exact .here hus hj

theorem declarators (hi : i ≤ list.tokens.length) :
    Follows list (w.declaratorsBy list i)
      (Parser.declarators list.stop (list.tokens.drop i)) := by
  rw [Ways.declaratorsBy, Parser.declarators]
  refine (hw.declarator hi).bind ?_
  intro first j h hj
  have hij := lt_of_left h
  generalize hus : list.tokens.drop j = us at h
  cases at_place hj with
  | token t hlt hdrop hentry =>
    obtain rfl := hus.symm.trans hdrop
    dsimp only
    by_cases hcomma : t.kind = .comma
    · rw [check_true 0 _ _ hentry hcomma, bind_ok (advance_eq hentry), if_pos hcomma]
      refine (hw (j + 1) (by omega) hlt).declarators.bind ?_
      intro more k h' hk
      exact .ok _ k hk _
    · rw [check_false 0 _ _ hentry hcomma, if_neg hcomma]
      exact .here hus hj
  | stop hj' hdrop hentry =>
    obtain rfl := hus.symm.trans hdrop
    dsimp only
    rw [check_stop 0 _ _ hentry]
    exact .here hus hj

theorem declaration {t : Token} (hdrop : list.tokens.drop i = t :: list.tokens.drop (i + 1))
    (ht : t.kind = .let_) :
    Follows list (w.declarationBy list i)
      (Parser.statement list.stop (t :: list.tokens.drop (i + 1))) := by
  obtain ⟨hlt, -, hentry⟩ := entry_of_drop hdrop
  rw [Ways.declarationBy, bind_ok (advance_eq hentry), Parser.statement.eq_def]
  dsimp only
  simp only [ht]
  refine ((hw (i + 1) (by omega) hlt).declarators).bind ?_
  intro inner j h hj
  have hij := lt_of_left h
  refine (finish_follows hdrop (by omega) hj _).bind ?_
  intro semicolon k h' hk
  exact .ok _ k hk _

theorem return_ {t : Token} (hdrop : list.tokens.drop i = t :: list.tokens.drop (i + 1))
    (ht : t.kind = .return_) :
    Follows list (w.returnBy list i)
      (Parser.statement list.stop (t :: list.tokens.drop (i + 1))) := by
  obtain ⟨hlt, -, hentry⟩ := entry_of_drop hdrop
  have hnext : i + 1 ≤ list.tokens.length := hlt
  have hfinish (h : (list.tokens.drop (i + 1)).length < _) :=
    finish_follows hdrop (Nat.lt_succ_self i) hlt h
  have hvalue := (hw (i + 1) (by omega) hlt).expression
  rw [Ways.returnBy, bind_ok (advance_eq hentry), Parser.statement.eq_def]
  dsimp only
  simp only [ht]
  generalize hus : list.tokens.drop (i + 1) = us at hdrop hfinish hvalue
  cases at_place hnext with
  | token u hlt' hdrop' hentry' =>
    obtain rfl := hus.symm.trans hdrop'
    rw [bind_ok (peek_eq 0 hentry')]
    by_cases hu : u.kind = .semicolon ∨ u.kind = .rbrace
    · dsimp only
      rw [if_pos (by simpa using hu), if_pos hu]
      refine (hfinish _).bind ?_
      intro semicolon k h' hk
      exact .ok _ k hk _
    · dsimp only
      rw [if_neg (by simpa using hu), if_neg hu]
      refine hvalue.bind ?_
      intro value j h hj
      have hij := lt_of_left (hus.symm ▸ h)
      refine (finish_follows hdrop (by omega) hj _).bind ?_
      intro semicolon k h' hk
      exact .ok _ k hk _
  | stop hi' hdrop' hentry' =>
    obtain rfl := hus.symm.trans hdrop'
    rw [bind_ok (peek_eq 0 hentry'), if_pos (by simp), bind_ok (finish_stop (by omega) hi')]
    exact .here hus hnext

theorem expressionStatement (hi : i ≤ list.tokens.length)
    (hlevels : list.tokens.length - i ≤ levels) :
    Follows list (w.expressionBy list levels i)
      (Parser.expressionStatement list.stop (list.tokens.drop i)) := by
  rw [Ways.expressionBy, Parser.expressionStatement]
  refine (hw.expression hi hlevels).bind ?_
  intro inner j h hj
  have hij := lt_of_left h
  refine (finish_follows rfl hij hj h).bind ?_
  intro semicolon k h' hk
  exact .ok _ k hk _

theorem assignment {t u : Token}
    (hdrop : list.tokens.drop i = t :: u :: list.tokens.drop (i + 1 + 1))
    (ht : t.kind = .identifier) (hu : u.kind = .assign) :
    Follows list (w.assignmentBy list i)
      (Parser.plainStatement list.stop (t :: u :: list.tokens.drop (i + 1 + 1))) := by
  obtain ⟨-, hrest, hentry⟩ := entry_of_drop hdrop
  obtain ⟨hlt, -, hentry'⟩ := entry_of_drop hrest.symm
  rw [Ways.assignmentBy, bind_ok (expect_eq _ _ hentry ht), bind_ok (advance_eq hentry'),
    Parser.plainStatement, if_pos ⟨ht, hu⟩]
  refine (hw (i + 1 + 1) (by omega) hlt).expression.bind ?_
  intro value j h hj
  have hij := lt_of_left h
  refine (finish_follows hdrop (by omega) hj _).bind ?_
  intro semicolon k h' hk
  exact .ok _ k hk _

theorem plainStatement (hi : i ≤ list.tokens.length)
    (hlevels : list.tokens.length - i ≤ levels) :
    Follows list
      ((do if ← Ways.assignmentAhead list then w.assignmentBy list
           else w.expressionBy list levels : Reader Node) i)
      (Parser.plainStatement list.stop (list.tokens.drop i)) := by
  have hexpression := hw.expressionStatement hi hlevels
  generalize hts : list.tokens.drop i = ts at hexpression
  cases at_place hi with
  | token t hlt hdrop hentry =>
    obtain rfl := hts.symm.trans hdrop
    have hnext : i + 1 ≤ list.tokens.length := hlt
    by_cases ht : t.kind = .identifier
    · cases at_place hnext with
      | token u hlt' hdrop' hentry' =>
        have hahead : Ways.assignmentAhead list i = .ok (decide (u.kind = .assign), i) := by
          rw [Ways.assignmentAhead, check_true 0 _ _ hentry ht, check_eq 1 _ hentry',
            Entry.isKind_token]
        rw [bind_ok hahead]
        rw [hdrop'] at hts hexpression ⊢
        by_cases hu : u.kind = .assign
        · rw [if_pos (decide_eq_true hu)]
          exact hw.assignment hts ht hu
        · rw [if_neg (by simpa using hu), Parser.plainStatement, if_neg fun h => hu h.2]
          exact hexpression
      | stop hi' hdrop' hentry' =>
        have hahead : Ways.assignmentAhead list i = .ok (false, i) := by
          rw [Ways.assignmentAhead, check_true 0 _ _ hentry ht, check_eq 1 _ hentry',
            Entry.isKind_stop]
        rw [bind_ok hahead, if_neg Bool.false_ne_true]
        rw [hdrop'] at hexpression ⊢
        rw [plainStatement_eq .nil]
        exact hexpression
    · have hahead : Ways.assignmentAhead list i = .ok (false, i) := by
        rw [Ways.assignmentAhead, check_false 0 _ _ hentry ht]
        rfl
      have hplain : Parser.plainStatement list.stop (t :: list.tokens.drop (i + 1)) =
          Parser.expressionStatement list.stop (t :: list.tokens.drop (i + 1)) := by
        cases list.tokens.drop (i + 1) with
        | nil => exact plainStatement_eq .nil
        | cons u rest => rw [Parser.plainStatement, if_neg fun h => ht h.1]
      rw [bind_ok hahead, if_neg Bool.false_ne_true, hplain]
      exact hexpression
  | stop hi' hdrop hentry =>
    obtain rfl := hts.symm.trans hdrop
    have hahead : Ways.assignmentAhead list i = .ok (false, i) := by
      rw [Ways.assignmentAhead, check_stop 0 _ _ hentry]
      rfl
    rw [bind_ok hahead, if_neg Bool.false_ne_true, Parser.plainStatement]
    · exact hexpression
    · intro t u rest h
      cases h

theorem statement (hi : i ≤ list.tokens.length) (hlevels : list.tokens.length - i ≤ levels) :
    Follows list (w.statementBy list levels i)
      (Parser.statement list.stop (list.tokens.drop i)) := by
  have hplain := hw.plainStatement hi hlevels
  generalize hts : list.tokens.drop i = ts at hplain
  cases at_place hi with
  | token t hlt hdrop hentry =>
    obtain rfl := hts.symm.trans hdrop
    rw [Ways.statementBy]
    by_cases hlet : t.kind = .let_
    · rw [check_true 0 _ _ hentry hlet]
      exact hw.declaration hts hlet
    · rw [check_false 0 _ _ hentry hlet]
      by_cases hreturn : t.kind = .return_
      · rw [check_true 0 _ _ hentry hreturn]
        exact hw.return_ hts hreturn
      · rw [check_false 0 _ _ hentry hreturn, statement_eq_plainStatement hlet hreturn]
        exact hplain
  | stop hi' hdrop hentry =>
    obtain rfl := hts.symm.trans hdrop
    have hnone : Parser.plainStatement list.stop [] =
        .error (Parser.missing list.stop .expression []) := by
      rw [Parser.plainStatement, Parser.expressionStatement, Parser.expression, Parser.binary,
        Parser.postfixExpr, Parser.primary]
      · dsimp only [bind, Except.bind]
      · intro t u rest h
        cases h
    rw [hnone] at hplain
    rw [Ways.statementBy, check_stop 0 _ _ hentry, check_stop 0 _ _ hentry, Parser.statement]
    exact hplain

theorem blockItems (hi : i ≤ list.tokens.length) (hlevels : list.tokens.length - i ≤ levels) :
    Follows list (w.blockItemsBy list levels i)
      (Parser.blockItems list.stop (list.tokens.drop i)) := by
  have hstatement := hw.statement hi hlevels
  generalize hts : list.tokens.drop i = ts at hstatement
  cases at_place hi with
  | token t hlt hdrop hentry =>
    obtain rfl := hts.symm.trans hdrop
    rw [Ways.blockItemsBy, bind_ok (peek_eq 0 hentry), Parser.blockItems]
    by_cases hclose : t.kind = .rbrace
    · rw [if_pos (by simpa using hclose), bind_ok (expect_eq _ _ hentry hclose), if_pos hclose]
      exact .ok _ (i + 1) hlt _
    · rw [if_neg (by simpa using hclose), if_neg hclose]
      refine hstatement.bind ?_
      intro first j h hj
      have hij := lt_of_left (hts.symm ▸ h)
      refine ((hw j hij hj).blockItems).bind ?_
      intro more k h' hk
      exact .ok _ k hk _
  | stop hi' hdrop hentry =>
    obtain rfl := hts.symm.trans hdrop
    rw [Ways.blockItemsBy, bind_ok (peek_eq 0 hentry), if_pos (by simp), Parser.blockItems]
    exact (Follows.expect .rbrace .closeBrace hts hi).bind_fault

theorem block (hi : i ≤ list.tokens.length) :
    Follows list (w.blockBy list i) (Parser.block list.stop (list.tokens.drop i)) := by
  rw [Ways.blockBy, Parser.block]
  refine (Follows.expect .lbrace .openBrace rfl hi).bind ?_
  intro opening j h hj
  have hij := lt_of_left h
  refine ((hw j hij hj).blockItems).bind ?_
  intro inner k h' hk
  exact .ok _ k hk _

theorem parameters (hi : i ≤ list.tokens.length) {nodes : List Node} {after : List Token}
    (htail : Parser.lambdaTail? (list.tokens.drop i) = some (nodes, after)) :
    ∃ names a b j, nodes = names ++ [.anonymous a, .anonymous b] ∧
      w.parametersBy list i = .ok (names, j) ∧ i ≤ j ∧ list.tokens.drop j = a :: b :: after ∧
      a.kind = .rparen ∧ b.kind = .doubleArrow := by
  cases at_place hi with
  | token a hlt hdrop hentry =>
    have hnext : i + 1 ≤ list.tokens.length := hlt
    cases at_place hnext with
    | token b hlt' hdrop' hentry' =>
      rw [hdrop, hdrop', Parser.lambdaTail?] at htail
      by_cases hmore : a.kind = .comma ∧ b.kind = .identifier
      · rw [if_pos hmore] at htail
        obtain ⟨⟨more, rest⟩, htail, heq⟩ := Option.map_eq_some_iff.1 htail
        cases heq
        obtain ⟨names, c, d, j, rfl, hnames, hle, hleft, hkinds⟩ :=
          (hw (i + 1 + 1) (by omega) hlt').parameters htail
        refine ⟨_ :: _ :: names, c, d, j, rfl, ?_, by omega, hleft, hkinds⟩
        rw [Ways.parametersBy, check_true 0 _ _ hentry hmore.1, bind_ok (advance_eq hentry),
          bind_ok (expect_eq _ _ hentry' hmore.2), bind_ok hnames]
        rfl
      · rw [if_neg hmore] at htail
        by_cases hclose : a.kind = .rparen ∧ b.kind = .doubleArrow
        · rw [if_pos hclose] at htail
          cases htail
          refine ⟨[], a, b, i, rfl, ?_, Nat.le_refl i, by rw [hdrop, hdrop'], hclose⟩
          rw [Ways.parametersBy, check_false 0 _ _ hentry (by rw [hclose.1]; decide)]
          rfl
        · rw [if_neg hclose] at htail
          cases htail
    | stop _ hdrop' =>
      rw [hdrop, hdrop'] at htail
      cases htail
  | stop _ hdrop =>
    rw [hdrop] at htail
    cases htail

-- ----------------------------------------------------------------- programs

omit hw in
theorem interface {t : Token} (hdrop : list.tokens.drop i = t :: list.tokens.drop (i + 1)) :
    Follows list (Ways.interfaceBy list i)
      (Parser.interfaceDecl list.stop t (list.tokens.drop (i + 1))) := by
  obtain ⟨hlt, -, hentry⟩ := entry_of_drop hdrop
  rw [Ways.interfaceBy, bind_ok (advance_eq hentry), Parser.interfaceDecl]
  refine (Follows.expect .string .manifestPath rfl hlt).bind ?_
  intro path j₁ h₁ hj₁
  have hlt₁ := lt_of_left h₁
  refine (Follows.expect .load .load rfl hj₁).bind ?_
  intro load j₂ h₂ hj₂
  have hlt₂ := lt_of_left h₂
  refine (Follows.expect .identifier .interfaceName rfl hj₂).bind ?_
  intro name j₃ h₃ hj₃
  have hlt₃ := lt_of_left h₃
  refine (finish_follows hdrop (by omega) hj₃ _).bind ?_
  intro semicolon j₄ h₄ hj₄
  exact .ok _ j₄ hj₄ _

theorem interfaces (hi : i ≤ list.tokens.length) :
    Reaches list (w.interfacesBy list i)
      (Parser.interfaces list.stop (list.tokens.drop i)) := by
  generalize hts : list.tokens.drop i = ts
  cases at_place hi with
  | token t hlt hdrop hentry =>
    obtain rfl := hts.symm.trans hdrop
    rw [Ways.interfacesBy, Parser.interfaces]
    by_cases ht : t.kind = .interface_
    · rw [check_true 0 _ _ hentry ht, if_pos ht]
      refine (interface hts).reaches ?_
      intro first j h hj
      have hij : i < j := by
        simp only [List.length_drop] at h
        omega
      refine ((hw j hij hj).interfaces).bind ?_
      intro more k hk
      exact .ok _ k hk
    · rw [check_false 0 _ _ hentry ht, if_neg ht, ← hts]
      exact .ok [] i hi
  | stop hi' hdrop hentry =>
    obtain rfl := hts.symm.trans hdrop
    rw [Ways.interfacesBy, check_stop 0 _ _ hentry, Parser.interfaces, ← hts]
    exact .ok [] i hi

theorem statements (hi : i ≤ list.tokens.length) (hlevels : list.tokens.length - i ≤ levels) :
    w.statementsBy list levels i =
      ((Parser.statements list.stop (list.tokens.drop i)).map (·, list.tokens.length)).mapError
        .fault := by
  have hstatement := hw.statement hi hlevels
  generalize hts : list.tokens.drop i = ts at hstatement
  cases at_place hi with
  | token t hlt hdrop hentry =>
    obtain rfl := hts.symm.trans hdrop
    rw [Ways.statementsBy, bind_ok (peek_eq 0 hentry), if_neg (by simp), Parser.statements]
    generalize hx : w.statementBy list levels i = x at hstatement
    generalize Parser.statement list.stop (t :: list.tokens.drop (i + 1)) = y at hstatement ⊢
    cases hstatement with
    | fault e =>
      rw [bind_error hx]
      rfl
    | ok first j hj h =>
      have hmore := (hw j (lt_of_left (hts.symm ▸ h)) hj).statements
      rw [bind_ok hx]
      dsimp only [bind, Except.bind]
      cases hrest : Parser.statements list.stop (list.tokens.drop j) with
      | error e =>
        rw [hrest] at hmore
        exact bind_error hmore
      | ok more =>
        rw [hrest] at hmore
        exact bind_ok hmore
  | stop hi' hdrop hentry =>
    obtain rfl := hts.symm.trans hdrop
    rw [Ways.statementsBy, bind_ok (peek_eq 0 hentry), if_pos (by simp), Parser.statements,
      pure_apply, hi']
    rfl

-- ------------------------------------------------------------------- levels

/-- One more level is right at a place if the levels below are right behind
it. -/
theorem step (hi : i ≤ list.tokens.length) (hlevels : list.tokens.length - i ≤ levels) :
    (w.step list levels).RightAt list i where
  binary least := hw.binary least hi hlevels
  operators least left _ h := hw.operators least left hi h
  suffixes before _ h := hw.suffixes before hi h
  listed field close expected := hw.listed field close expected hi hlevels
  parameters htail := hw.parameters hi htail
  conditional hdrop := hw.conditional hdrop
  block := hw.block hi
  blockItems := hw.blockItems hi hlevels
  declarators := hw.declarators hi
  interfaces := hw.interfaces hi
  statements := hw.statements hi hlevels

end Ways.RightBehind

/-- More levels than there are tokens left are enough. -/
theorem ways_right (n : Nat) : ∀ i, i ≤ list.tokens.length → list.tokens.length - i < n →
    (ways list n).RightAt list i := by
  induction n with
  | zero =>
    intro i hi hlevels
    omega
  | succ n ih =>
    intro i hi hlevels
    have hbehind : (ways list n).RightBehind list i := by
      intro j hij hj
      exact ih j hj (by omega)
    exact hbehind.step hi (by omega)

/-- What has taken a token already needs a level less. -/
theorem ways_right_behind (hlevels : list.tokens.length - i ≤ levels) :
    (ways list levels).RightBehind list i := by
  intro j hij hj
  exact ways_right levels j hj (by omega)

end

-- ================================================================= results

/-- How a production ends that was begun at a place and cannot leave the
program: further on, and not past the end, or with a fault. -/
inductive Ends (list : TokenList) (i : Nat) : Except Halt (Node × Nat) → Prop
  | node (n : Node) (j : Nat) (hlt : i < j) (hle : j ≤ list.tokens.length) :
      Ends list i (.ok (n, j))
  | fault (e : ParseError) : Ends list i (.error (.fault e))

theorem Follows.ends {x : Except Halt (Node × Nat)}
    {y : Except ParseError (Parser.Taken (list.tokens.drop i).length Node)}
    (h : Follows list x y) : Ends list i x := by
  cases h with
  | ok n j hj h => exact .node n j (Ways.RightBehind.lt_of_left h) hj
  | fault e => exact .fault e

/-- A program by numbers is what it is by lists, once there are as many levels as
tokens. -/
theorem program_eq {levels : Nat} (hlevels : list.tokens.length ≤ levels) :
    program list levels = (Parser.program list).mapError .fault := by
  have hbehind : (ways list levels).RightBehind list 0 := ways_right_behind hlevels
  have hdeclared := hbehind.interfaces (Nat.zero_le _)
  rw [List.drop_zero] at hdeclared
  rw [Parser.program_eq, program, sections, Parser.sections]
  generalize hx : (ways list levels).interfacesBy list 0 = x at hdeclared
  generalize Parser.interfaces list.stop list.tokens = y at hdeclared ⊢
  cases hdeclared with
  | fault e =>
    rw [bind_error hx]
    rfl
  | ok declared j hj =>
    have hlevels' : list.tokens.length - j ≤ levels := by omega
    have hinner := (hbehind.mono (Nat.zero_le j)).statements hj hlevels'
    rw [bind_ok hx]
    dsimp only [bind, Except.bind]
    cases hrest : Parser.statements list.stop (list.tokens.drop j) with
    | error e =>
      rw [hrest] at hinner
      rw [hinner]
      rfl
    | ok inner =>
      rw [hrest] at hinner
      rw [hinner]
      rfl

section

variable {levels : Nat} (hi : i ≤ list.tokens.length)
  (hlevels : list.tokens.length - i ≤ levels)

include hi hlevels

theorem statement_ends : Ends list i (statement list levels i) :=
  ((ways_right_behind hlevels).statement hi hlevels).ends

theorem expression_ends : Ends list i (expression list levels i) :=
  ((ways_right_behind hlevels).expression hi hlevels).ends

theorem primary_ends : Ends list i (primary list levels i) :=
  ((ways_right_behind hlevels).primary hi hlevels).ends

end

end SamScript.Indexed

namespace SamScript

open Indexed

/-- Parsing a text that has tokens ends with a tree or with a fault, and does so
by numbers too, with as many levels as there are tokens: nothing outside the
program is read, its end is not taken, and the levels do not run out. With a
level for each token left, every statement, expression or primary expression
that is found takes a token at least and leaves the place inside the program,
and looking ahead for the head of a lambda comes to an answer without moving. -/
theorem parsing_stays_among_tokens {file : Option String} {source : String} {list : TokenList}
    (h : tokenize file source = .ok list) :
    (Tree.ofSource {} file source =
        ((Parser.program list).map fun root => ⟨root, Utf8.encode source.toList⟩).mapError .parse ∧
      Indexed.program list list.tokens.length = (Parser.program list).mapError .fault) ∧
    ∀ i levels, i ≤ list.tokens.length → list.tokens.length - i ≤ levels →
      Ends list i (Indexed.statement list levels i) ∧
      Ends list i (Indexed.expression list levels i) ∧
      Ends list i (Indexed.primary list levels i) ∧
      (i < list.tokens.length → lambdaAhead list levels i =
        .ok ((Parser.lambdaHead? (list.tokens.drop (i + 1))).isSome, i)) := by
  refine ⟨⟨?_, program_eq (Nat.le_refl _)⟩, ?_⟩
  · rw [Tree.ofSource, h]
    dsimp only [Parser.programWithin]
    cases Parser.program list <;> rfl
  · intro i levels hi hlevels
    refine ⟨statement_ends hi hlevels, expression_ends hi hlevels, primary_ends hi hlevels, ?_⟩
    intro hlt
    exact lambdaAhead_eq hlt hlevels

/-- A call that is never closed: parsing it ends where the program ends, and the
lookahead behind its second parenthesis runs into the end and comes back. -/
theorem parsing_stays_among_tokens_unclosed :
    ∃ list, tokenize none "f((a" = .ok list ∧ list.tokens.length = 4 ∧
      Tree.ofSource {} none "f((a" = .error (.parse ⟨.unexpectedEnd .closeParen, list.stop⟩) ∧
      Indexed.program list 4 = .error (.fault ⟨.unexpectedEnd .closeParen, list.stop⟩) ∧
      Ends list 3 (Indexed.primary list 1 3) ∧ lambdaAhead list 2 2 = .ok (false, 2) := by
  have hrun : (tokenize none "f((a").toOption.any (fun list =>
      list.tokens.length = 4 && (Parser.lambdaHead? (list.tokens.drop 3)).isNone &&
      decide (Parser.program list = .error ⟨.unexpectedEnd .closeParen, list.stop⟩)) = true := by
    decide +kernel
  rcases hlist : tokenize none "f((a" with e | list
  · rw [hlist] at hrun
    cases hrun
  · rw [hlist] at hrun
    simp only [Except.toOption, Option.any_some, Bool.and_eq_true, decide_eq_true_eq,
      Option.isNone_iff_eq_none] at hrun
    obtain ⟨⟨hlength, hhead⟩, hprogram⟩ := hrun
    obtain ⟨⟨hsource, hnumbers⟩, hplaces⟩ := parsing_stays_among_tokens hlist
    rw [hprogram] at hsource hnumbers
    rw [hlength] at hnumbers
    obtain ⟨-, -, hprimary, -⟩ := hplaces 3 1 (by omega) (by omega)
    obtain ⟨-, -, -, hahead⟩ := hplaces 2 2 (by omega) (by omega)
    rw [hhead] at hahead
    exact ⟨list, rfl, hlength, hsource, hnumbers, hprimary, hahead (by omega)⟩

end SamScript
