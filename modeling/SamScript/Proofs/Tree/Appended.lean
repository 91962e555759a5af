/-
The tree of a text behind another. A program that ends in a semicolon, a line feed
and a program without interface declarations make a program: its items are those of
the first and then those of the second, moved as far as the second stands from the
start (`Tree.ofSource_behind`). Only the limit on brackets can speak against it.
-/
import SamScript.Proofs.Tree.Onward
import SamScript.Proofs.Tree.Shifted
import SamScript.Proofs.Tree.WellFormed

namespace SamScript

open SamScript.Parser

namespace Parser

/-- Past the limit on brackets nothing but the grammar decides. -/
theorem programWithin_eq (limit : Option Nat) (list : TokenList) :
    programWithin limit list = program list ∨
      limit ≠ none ∧ ∃ e, programWithin limit list = .error e ∧ e.fault = .tooDeep := by
  unfold programWithin
  split
  · split
    · exact .inr ⟨Option.some_ne_none _, _, rfl, rfl⟩
    · exact .inl rfl
  · exact .inl rfl

end Parser

namespace Tree

variable {bounds : Bounds} {file : Option String} {source : String} {tree : Tree}

/-- A parsed text: its tokens, and the sections they were parsed to. -/
theorem ofSource_sections (h : Tree.ofSource bounds file source = .ok tree) :
    ∃ list declared inner, tokenize file source = .ok list ∧
      sections list.stop list.tokens = .ok (declared, inner) ∧
      tree = ⟨rootNode list.stop declared inner, Utf8.encode source.toList⟩ := by
  unfold Tree.ofSource at h
  split at h
  · cases h
  · rename_i list hlist
    split at h
    · cases h
    · rename_i root hroot
      cases h
      have hprogram := program_of_within hroot
      rw [program_eq] at hprogram
      rcases hsections : sections list.stop list.tokens with e | ⟨declared, inner⟩
      · rw [hsections] at hprogram
        cases hprogram
      · rw [hsections] at hprogram
        cases hprogram
        exact ⟨list, declared, inner, hlist, hsections, rfl⟩

/-- Without interface declarations a program is its statements. -/
theorem statements_of_sections {stop : Span} {ts : List Token} {declared inner : List Node}
    (h : sections stop ts = .ok (declared, inner)) (hnone : declared = []) :
    Heads (· ≠ .interface_) ts ∧ statements stop ts = .ok inner := by
  have hfirst : Heads (· ≠ .interface_) ts := by
    cases ts with
    | nil => exact .nil
    | cons t ts =>
      refine .cons fun hk => ?_
      rw [sections_interface hk] at h
      rcases hdecl : interfaceDecl stop t ts with e | first
      · rw [hdecl] at h
        cases h
      · rw [hdecl] at h
        dsimp only [bind, Except.bind] at h
        rcases hmore : sections stop first.rest with e | more
        · rw [hmore] at h
          cases h
        · rw [hmore, hnone] at h
          cases h
  refine ⟨hfirst, ?_⟩
  rw [sections_statements hfirst] at h
  rcases hinner : statements stop ts with e | inner'
  · rw [hinner] at h
    cases h
  · rw [hinner] at h
    cases h
    rfl

/-- Tokens that make the sections of a program make its tree, unless brackets nest too
deep. -/
theorem ofSource_of_sections {list : TokenList} {declared inner : List Node}
    (hlist : tokenize file source = .ok list)
    (h : sections list.stop list.tokens = .ok (declared, inner)) :
    Tree.ofSource bounds file source =
        .ok ⟨rootNode list.stop declared inner, Utf8.encode source.toList⟩ ∨
      bounds.brackets ≠ none ∧
        ∃ e, Tree.ofSource bounds file source = .error (.parse e) ∧ e.fault = .tooDeep := by
  have hprogram := program_eq list
  rw [h] at hprogram
  unfold Tree.ofSource
  rw [hlist]
  dsimp only
  rcases programWithin_eq bounds.brackets list with heq | ⟨hlimit, e, heq, hdeep⟩
  · rw [heq, hprogram]
    exact .inl rfl
  · rw [heq]
    exact .inr ⟨hlimit, e, rfl, hdeep⟩

theorem exists_of_closed (bounds : Bounds) (file : Option String) (source : String)
    (hparses : (Tree.ofSource bounds file source).isOk = true)
    (hends : ((tokenize file source).toOption.any fun list =>
      list.tokens.getLast?.all (·.kind = .semicolon)) = true) :
    ∃ t list, Tree.ofSource bounds file source = .ok t ∧ tokenize file source = .ok list ∧
      Closed list.tokens := by
  obtain ⟨t, ht⟩ := Tree.exists_of_isOk hparses
  rcases hlist : tokenize file source with e | list
  · rw [hlist] at hends
    cases hends
  · rw [hlist] at hends
    exact ⟨t, list, ht, rfl, fun last hlast => of_decide_eq_true
      ((Option.all_eq_true _ _).1 hends last hlast)⟩

/-- A program that ends in a semicolon, a line feed, and a program without interface
declarations. -/
theorem ofSource_behind {source' : String} {tree' : Tree} {list : TokenList}
    (h : Tree.ofSource bounds file source = .ok tree) (hlist : tokenize file source = .ok list)
    (hclosed : Closed list.tokens) (h' : Tree.ofSource bounds file source' = .ok tree')
    (hnone : ∀ n ∈ tree'.root.children, n.kind ≠ .interfaces) :
    let d := Shift.past (source.toList ++ ['\n'])
    let both := Tree.ofSource bounds file (source ++ "\n" ++ source')
    (∃ tree'', both = .ok tree'' ∧
        tree''.root.children = tree.root.children ++ tree'.root.children.map (Node.shift d)) ∨
      bounds.brackets ≠ none ∧ ∃ e, both = .error (.parse e) ∧ e.fault = .tooDeep := by
  intro d both
  obtain ⟨found, declared, inner, hfound, hsections, rfl⟩ := ofSource_sections h
  obtain ⟨list', declared', inner', hlist', hsections', rfl⟩ := ofSource_sections h'
  cases hlist.symm.trans hfound
  have hempty : declared' = [] := by
    cases declared' with
    | nil => rfl
    | cons n ns => exact absurd rfl (hnone (.branch .interfaces n ns) List.mem_cons_self)
  obtain ⟨hfirst, hstatements'⟩ := statements_of_sections hsections' hempty
  have hmore : Heads (· ≠ .interface_) (list'.tokens.map (Token.shift d)) := by
    intro t ht
    rw [List.head?_map] at ht
    obtain ⟨u, hu, rfl⟩ := Option.map_eq_some_iff.1 ht
    exact hfirst u hu
  have hwhole : sections (list'.stop.shift d)
      (list.tokens ++ list'.tokens.map (Token.shift d)) =
        .ok (declared, inner ++ inner'.map (Node.shift d)) := by
    rw [sections_onward (list'.stop.shift d) hmore list.tokens hclosed hsections,
      statements_shift d _ (tokenize_places hlist').2.1 hstatements']
    rfl
  refine (ofSource_of_sections (tokenize_behind hlist hclosed hlist') hwhole).imp_left fun hok => ?_
  refine ⟨_, hok, ?_⟩
  subst hempty
  exact (List.append_assoc _ _ _).symm

end Tree

end SamScript
