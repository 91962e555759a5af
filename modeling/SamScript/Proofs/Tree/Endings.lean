/-
What follows a semicolon in a program. Wherever the grammar has a semicolon, a
statement or an interface declaration ends there; so the next token is one that
another of them or a closing brace begins with, or the program is at its end
(`program_punctuated`). The induction goes over the grammar and puts the tokens of
each phrase in front of punctuated ones (`Punctuates`).
-/
import SamScript.Proofs.Tree.Printed
import SamScript.Proofs.Tree.Soundness

namespace SamScript

open SamScript.Parser

-- =============================================================== beginnings

/-- The kinds that a statement, an interface declaration or the end of a block
can begin with. -/
def beginnings : List TokenKind :=
  [.rbrace, .let_, .return_, .interface_] ++ starters

/-- Whether some tokens begin like that. -/
def Begins (ts : List Token) : Prop :=
  ∃ t us, ts = t :: us ∧ t.kind ∈ beginnings

section

variable {t : Token} {ts us : List Token} {k : TokenKind}

theorem begins_of_kind (ht : t.kind = k) (hk : k ∈ beginnings) (us : List Token) :
    Begins ([t] ++ us) :=
  ⟨t, us, rfl, ht ▸ hk⟩

theorem Begins.append (h : Begins ts) (us : List Token) : Begins (ts ++ us) := by
  obtain ⟨t, ts, rfl, hk⟩ := h
  exact ⟨t, ts ++ us, rfl, hk⟩

theorem Begins.heads (h : Begins ts) (us : List Token) : Heads (· ∈ beginnings) (ts ++ us) := by
  obtain ⟨t, ts, rfl, hk⟩ := h
  exact .cons hk

/-- The phrases that are never empty and come after a semicolon. -/
def Phrase.Begins : Phrase → Prop
  | .expression | .conditional | .inner | .statement | .interface_ => True
  | _ => False

theorem Spells.begins {p : Phrase} {ns : List Node} (h : Spells p ts ns) (hp : p.Begins) :
    Begins ts := by
  induction h with
  | number ht => exact begins_of_kind ht (by decide) []
  | negative hm => exact begins_of_kind hm (by decide) [_]
  | string ht => exact begins_of_kind ht (by decide) []
  | name ht => exact begins_of_kind ht (by decide) []
  | group ho => exact begins_of_kind ho (by decide) _
  | array ho => exact begins_of_kind ho (by decide) _
  | lambda ho => exact begins_of_kind ho (by decide) _
  | conditional _ ih => exact ih trivial
  | call _ _ _ ih => exact (ih trivial).append _
  | access _ _ _ ih => exact (ih trivial).append _
  | binary _ _ _ ih => exact (ih trivial).append _
  | if_ hi => exact begins_of_kind hi (by decide) _
  | brace ht => exact begins_of_kind ht (by decide) []
  | inner _ _ _ ih => exact (ih trivial).append _
  | declaration hl => exact begins_of_kind hl (by decide) _
  | return_ hr => exact begins_of_kind hr (by decide) _
  | returnValue hr => exact begins_of_kind hr (by decide) _
  | assignment ht => exact begins_of_kind ht (by decide) _
  | plain _ _ ih => exact (ih trivial).append _
  | interface_ hi => exact begins_of_kind hi (by decide) _
  | _ => exact hp.elim

end

-- =============================================================== semicolons

/-- Whether each semicolon of some tokens is the last of them or has a beginning
behind it. -/
def Punctuated : List Token → Prop
  | [] => True
  | t :: rest => (t.kind = .semicolon → Heads (· ∈ beginnings) rest) ∧ Punctuated rest

/-- Whether some tokens can be put in front of punctuated ones. If they may close
with a semicolon, a beginning has to follow. -/
def Punctuates (closes : Prop) (ts : List Token) : Prop :=
  ∀ us, (closes → Heads (· ∈ beginnings) us) → Punctuated us → Punctuated (ts ++ us)

/-- The phrases that may close with a semicolon. -/
def Phrase.Closes : Phrase → Prop
  | .ending | .statement | .statements | .interface_ | .interfaces => True
  | .listed _ close => close = .semicolon
  | _ => False

namespace Punctuates

variable {closes : Prop} {t : Token} {ts us : List Token} {k : TokenKind}

theorem nil : Punctuates closes [] :=
  fun _ _ hus => hus

theorem token (h : t.kind = .semicolon → closes) : Punctuates closes [t] :=
  fun _ hfollows hus => ⟨fun hk => hfollows (h hk), hus⟩

theorem mark (ht : t.kind = k) (hk : k ≠ .semicolon) : Punctuates closes [t] :=
  .token fun he => absurd (ht.symm.trans he) hk

theorem mono {closes' : Prop} (h : Punctuates closes ts) (hcloses : closes → closes') :
    Punctuates closes' ts :=
  fun us hfollows => h us fun hc => hfollows (hcloses hc)

theorem append (h : Punctuates False ts) (h' : Punctuates closes us) :
    Punctuates closes (ts ++ us) := by
  intro vs hfollows hvs
  rw [List.append_assoc]
  exact h _ False.elim (h' vs hfollows hvs)

/-- Some tokens that may close with a semicolon, and more that begin. -/
theorem chain (h : Punctuates True ts) (h' : Punctuates closes us)
    (hbegins : ∀ vs, (closes → Heads (· ∈ beginnings) vs) → Heads (· ∈ beginnings) (us ++ vs)) :
    Punctuates closes (ts ++ us) := by
  intro vs hfollows hvs
  rw [List.append_assoc]
  exact h _ (fun _ => hbegins vs hfollows) (h' vs hfollows hvs)

end Punctuates

theorem Spells.heads_statements {ts : List Token} {ns : List Node}
    (h : Spells .statements ts ns) {us : List Token} (hus : Heads (· ∈ beginnings) us) :
    Heads (· ∈ beginnings) (ts ++ us) := by
  cases h with
  | noStatements => exact hus
  | statements hs => exact ((hs.begins trivial).append _).heads us

theorem Spells.heads_interfaces {ts : List Token} {ns : List Node}
    (h : Spells .interfaces ts ns) {us : List Token} (hus : Heads (· ∈ beginnings) us) :
    Heads (· ∈ beginnings) (ts ++ us) := by
  cases h with
  | noInterfaces => exact hus
  | interfaces hi => exact ((hi.begins trivial).append _).heads us

/-- The tokens of every phrase punctuate what follows them. -/
theorem Spells.punctuates {p : Phrase} {ts : List Token} {ns : List Node} (h : Spells p ts ns) :
    Punctuates p.Closes ts := by
  induction h with
  | number ht => exact .mark ht (by decide)
  | negative hm ht => exact (Punctuates.mark hm (by decide)).append (.mark ht (by decide))
  | string ht => exact .mark ht (by decide)
  | name ht => exact .mark ht (by decide)
  | group ho hc _ ih =>
    exact (Punctuates.mark ho (by decide)).append (ih.append (.mark hc (by decide)))
  | array ho _ ih => exact (Punctuates.mark ho (by decide)).append (ih.mono nofun)
  | lambda ho _ _ ihhead ihbody =>
    exact (Punctuates.mark ho (by decide)).append (ihhead.append ihbody)
  | conditional _ ih => exact ih
  | call _ ho _ ihcallee ihitems =>
    exact ihcallee.append ((Punctuates.mark ho (by decide)).append (ihitems.mono nofun))
  | access _ hdot ht ih =>
    exact ih.append ((Punctuates.mark hdot (by decide)).append (.mark ht (by decide)))
  | @binary _ _ op _ _ p _ hop _ ihleft ihright =>
    have hsemicolon : op.kind ≠ .semicolon := fun he => by rw [he] at hop; cases hop
    exact ihleft.append ((Punctuates.mark rfl hsemicolon).append ihright)
  | if_ hi ho _ hc _ _ ihcondition ihblock ihalternative =>
    exact (Punctuates.mark hi (by decide)).append ((Punctuates.mark ho (by decide)).append
      (ihcondition.append ((Punctuates.mark hc (by decide)).append (ihblock.append ihalternative))))
  | noElse => exact .nil
  | elseIf he _ ih => exact (Punctuates.mark he (by decide)).append ih
  | elseBlock he _ ih => exact (Punctuates.mark he (by decide)).append ih
  | arrow hc ha => exact (Punctuates.mark hc (by decide)).append (.mark ha (by decide))
  | parameter hc ht _ ih =>
    exact (Punctuates.mark hc (by decide)).append ((Punctuates.mark ht (by decide)).append ih)
  | bare _ _ ih => exact ih
  | parameters ht _ ih => exact (Punctuates.mark ht (by decide)).append ih
  | close ht => exact .token fun hk => ht.symm.trans hk
  | last _ ht ih => exact ih.append (.token fun hk => ht.symm.trans hk)
  | item _ ht _ ihitem ihmore => exact ihitem.append ((Punctuates.mark ht (by decide)).append ihmore)
  | block ho _ ih => exact (Punctuates.mark ho (by decide)).append ih
  | brace ht => exact .mark ht (by decide)
  | inner _ _ hmore ihfirst ihmore =>
    exact ihfirst.chain ihmore fun vs _ => (hmore.begins trivial).heads vs
  | noSemicolon => exact .nil
  | semicolon _ => exact .token fun _ => trivial
  | declaration hl _ _ ih ihending =>
    exact (Punctuates.mark hl (by decide)).append (ih.append ihending)
  | return_ hr _ ih => exact (Punctuates.mark hr (by decide)).append ih
  | returnValue hr _ _ ih ihending =>
    exact (Punctuates.mark hr (by decide)).append (ih.append ihending)
  | assignment ht ha _ _ ih ihending =>
    exact (Punctuates.mark ht (by decide)).append
      ((Punctuates.mark ha (by decide)).append (ih.append ihending))
  | plain _ _ ih ihending => exact ih.append ihending
  | variable_ ht => exact .mark ht (by decide)
  | variableValue ht ha _ ih =>
    exact (Punctuates.mark ht (by decide)).append ((Punctuates.mark ha (by decide)).append ih)
  | declarator _ ih => exact ih
  | declarators _ hc _ ih ihmore => exact ih.append ((Punctuates.mark hc (by decide)).append ihmore)
  | interface_ hi hpath hload ht _ ih =>
    exact (Punctuates.mark hi (by decide)).append ((Punctuates.mark hpath (by decide)).append
      ((Punctuates.mark hload (by decide)).append ((Punctuates.mark ht (by decide)).append ih)))
  | noInterfaces => exact .nil
  | interfaces _ hmore ih ihmore =>
    exact ih.chain ihmore fun vs hfollows => hmore.heads_interfaces (hfollows trivial)
  | noStatements => exact .nil
  | statements _ _ hmore ih ihmore =>
    exact ih.chain ihmore fun vs hfollows => hmore.heads_statements (hfollows trivial)

-- ================================================================ programs

namespace Parser

/-- Each semicolon of a program that parses is its last token or has a beginning
behind it. -/
theorem program_punctuated {list : TokenList} {root : Node} (h : program list = .ok root) :
    Punctuated list.tokens := by
  obtain ⟨ds, is, declared, inner, htokens, hds, his, -⟩ := program_spells h
  have hall : Punctuated (ds ++ (is ++ [])) := by
    refine hds.punctuates _ (fun _ => his.heads_statements .nil) ?_
    exact his.punctuates [] (fun _ => .nil) trivial
  rwa [List.append_nil, ← htokens] at hall

end Parser

theorem Punctuated.heads {ts us : List Token} {t : Token} (h : Punctuated (ts ++ t :: us))
    (hk : t.kind = .semicolon) : Heads (· ∈ beginnings) us := by
  induction ts with
  | nil => exact h.1 hk
  | cons _ ts ih => exact ih h.2

end SamScript
