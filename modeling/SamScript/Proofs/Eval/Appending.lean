/-
Text behind a program. A line feed and another program behind one that ends in a
semicolon change nothing of what came before: the items of the first program are
where they were, its run goes the same way, and where it ends well the statements of
the other go on from the state that it left (`appending_keeps_what_came_before`).
-/
import SamScript.Proofs.Eval.Agrees
import SamScript.Proofs.Eval.Diagnostics
import SamScript.Proofs.Text.Lines
import SamScript.Proofs.Tree.Appended
import SamScript.Proofs.Tree.Extents

namespace SamScript

open Run Utf8

-- =================================================================== bytes

section

variable {front back : List UInt8} {start stop : Nat}

theorem slice_front (h : stop ≤ front.length) :
    slice (front ++ back) start stop = slice front start stop := by
  by_cases hle : start ≤ stop
  · unfold slice
    rw [List.drop_append_of_le_length (Nat.le_trans hle h), List.take_append_of_le_length]
    rw [List.length_drop]
    omega
  · unfold slice
    rw [Nat.sub_eq_zero_of_le (by omega), List.take_zero, List.take_zero]

theorem slice_back : slice (front ++ back) (start + front.length) (stop + front.length) =
    slice back start stop := by
  unfold slice
  rw [Nat.add_comm start, List.drop_length_add_append, Nat.add_comm stop,
    Nat.add_sub_add_left]

end

-- =================================================================== items

namespace Eval

variable {φ : Type} {root root' : Node} {ns : List Node}

theorem named_behind (h : root'.children = root.children ++ ns) :
    root'.named = root.named ++ ns.filter Node.isNamed := by
  rw [Node.named, h, List.filter_append]
  rfl

/-- Items that come later declare no interfaces. -/
theorem declarations_behind (h : root'.children = root.children ++ ns)
    (hns : ∀ n ∈ ns, n.kind ≠ .interfaces) : declarations root' = declarations root := by
  unfold declarations
  rw [named_behind h]
  cases root.named with
  | nil =>
    rw [List.nil_append]
    cases hnamed : ns.filter Node.isNamed with
    | nil => rfl
    | cons n rest =>
      have hn : n ∈ ns := (List.mem_filter.1 (hnamed ▸ List.mem_cons_self)).1
      exact if_neg (hns n hn)
  | cons first rest => rfl

/-- They are statements, behind the others. -/
theorem mainStatements_behind (h : root'.children = root.children ++ ns)
    (hns : ∀ n ∈ ns, n.kind ≠ .interfaces) :
    mainStatements root' = mainStatements root ++ ns.filter Node.isNamed := by
  unfold mainStatements
  rw [named_behind h]
  cases root.named with
  | nil =>
    rw [List.nil_append]
    cases hnamed : ns.filter Node.isNamed with
    | nil => rfl
    | cons n rest =>
      have hn : n ∈ ns := (List.mem_filter.1 (hnamed ▸ List.mem_cons_self)).1
      exact if_neg (hns n hn)
  | cons first rest =>
    rw [List.cons_append]
    dsimp only
    split
    · rfl
    · rfl

variable [Callable φ] [DecidableEq φ] {env : Env φ} {call : Caller φ}

/-- Statements behind others go on from the state that those leave. -/
theorem topLevel_append (ms ns : List Node) :
    topLevel env call (ms ++ ns) = topLevel env call ms >>= fun _ => topLevel env call ns := by
  induction ms with
  | nil => rfl
  | cons m ms ih =>
    rw [List.cons_append, topLevel, topLevel, Run.bind_assoc]
    refine congrArg (blamed (env.place m) (statement env call m) >>= ·) (funext fun x => ?_)
    cases x with
    | returned v => rfl
    | value v => exact ih

end Eval

-- ================================================================== places

theorem encode_behind (text more : List Char) :
    encode (text ++ '\n' :: more) = encode (text ++ ['\n']) ++ encode more := by
  rw [← encode_append, List.append_assoc, List.singleton_append]

/-- How far a text is behind another one and a line feed. -/
theorem Shift.past_feed (text : List Char) :
    Shift.past (text ++ ['\n']) = ⟨text.count '\n' + 1, (encode text).length + 1⟩ := by
  rw [Shift.past, ← length_encode, encode_append, List.length_append, List.count_append]
  rfl

/-- A node that was moved by a text spells behind it what it did alone. -/
theorem Node.bytes_shift (n : Node) (text more : List Char) :
    (n.shift (.past (text ++ ['\n']))).bytes (encode (text ++ '\n' :: more)) =
      n.bytes (encode more) := by
  rw [encode_behind, Node.bytes, extent_shift]
  unfold Shift.past
  rw [← length_encode]
  exact slice_back

/-- A text is parsed to a tree inside that of a longer one, if the items of the longer
one begin with its own. -/
theorem Tree.inside_of_source {bounds : Bounds} {file : Option String} {source source' : String}
    {more : List Char} {t v : Tree} {ns : List Node} (ht : Tree.ofSource bounds file source = .ok t)
    (hv : Tree.ofSource bounds file source' = .ok v)
    (hsource : source'.toList = source.toList ++ '\n' :: more)
    (hitems : v.root.children = t.root.children ++ ns) : t.Inside v := by
  have hwell := Tree.ofSource_wellFormed ht
  have htext := (Tree.ofSource_spells ht).1
  have htext' : v.source = encode (source.toList ++ '\n' :: more) := by
    rw [(Tree.ofSource_spells hv).1, hsource]
  have hexact {n : Node} (hn : n ∈ t.root.preorder) : n.extent.Exact source.toList :=
    (Tree.ofSource_placed ht n hn).exact
  have hstop {n : Node} (hn : n ∈ t.root.preorder) :
      n.extent.endByte ≤ (encode source.toList).length := by
    obtain ⟨-, before, ⟨rest, hrest⟩, hend, -⟩ := hexact hn
    rw [hend, ← hrest, encode_append, List.length_append]
    exact Nat.le_add_right _ _
  refine ⟨fun n hn => ?_, fun n hn => ?_, fun n hn => ?_⟩
  · obtain ⟨c, hc, hnc⟩ := Node.mem_preorders.1 hn
    exact Node.mem_preorder_of_child (hitems ▸ List.mem_append_left ns hc) hnc
  · rw [htext, htext', encode_append]
    exact slice_front (hstop hn)
  · obtain ⟨c, hc, hnc⟩ := Node.mem_preorders.1 hn
    have hroot := Tree.mem_root hn
    obtain ⟨⟨before, ⟨rest, hrest⟩, hstart, hpoint⟩, -⟩ := hexact hroot
    -- a node below the root covers something, so the text goes on where it starts
    have hwide : n.extent.startByte < n.extent.endByte :=
      Node.Ordered.nonempty (hwell.ordered.child hc)
        (InOrder.of_mem hwell.ordered.self (List.mem_map_of_mem hc)).2.1 n hnc
    have hgoes : rest ≠ [] := by
      rintro rfl
      rw [List.append_nil] at hrest
      have := hstop hroot
      rw [← hrest] at this
      omega
    rw [htext, htext', decodeLossy_encode, decodeLossy_encode, hpoint, ← hrest]
    exact Lines.line?_behind before more hgoes

-- =================================================================== runs

/-- More items behind those of a tree: a run that failed fails as it did, and one that
ended well goes on with the statements among them. -/
theorem Tree.WellFormed.evaluate_behind {t v : Tree} {ns : List Node} (h : t.WellFormed)
    (h' : v.WellFormed) (hin : t.Inside v) (hitems : v.root.children = t.root.children ++ ns)
    (hns : ∀ n ∈ ns, n.kind ≠ .interfaces) (r : Surroundings) :
    (∀ e s, evaluate r t.root t.source = (.error e, s) →
      evaluate r v.root v.source = (.error e, s)) ∧
    ∀ s, evaluate r t.root t.source = (.ok (), s) →
      let env := r.env v.root v.source
      evaluate r v.root v.source =
        Eval.topLevel env (Eval.enter env env.config.maxCallDepth) (ns.filter Node.isNamed) s := by
  let env := r.env v.root v.source
  let call := Eval.enter env env.config.maxCallDepth
  let first := Eval.interfaces env (Eval.declarations t.root) >>= fun _ =>
    Eval.topLevel env call (Eval.mainStatements t.root)
  have hfirst : evaluate r t.root t.source = first {} := h.evaluate_inside h' hin r
  have hrun : evaluate r v.root v.source =
      (first >>= fun _ => Eval.topLevel env call (ns.filter Node.isNamed)) {} := by
    rw [evaluate, Eval.program_eq h'.root.2]
    change (Eval.interfaces env (Eval.declarations v.root) >>= fun _ =>
      Eval.topLevel env call (Eval.mainStatements v.root)) {} = _
    rw [Eval.declarations_behind hitems hns, Eval.mainStatements_behind hitems hns,
      Run.bind_assoc]
    simp only [Eval.topLevel_append]
  refine ⟨fun e s he => ?_, fun s hs => ?_⟩
  · rw [hrun, Run.bind_apply, ← hfirst, he]
  · rw [hrun, Run.bind_apply, ← hfirst, hs]

/-- A run of a text that parses fails where evaluation does. -/
theorem runSource_error_iff {r : Surroundings} {source : String} {t : Tree} {e : RunError}
    (ht : Tree.ofSource r.bounds r.file source = .ok t) :
    runSource r source = .error e ↔
      ∃ f s, evaluate r t.root t.source = (.error f, s) ∧ e = .eval f := by
  rw [runSource, ht]
  dsimp only
  rcases evaluate r t.root t.source with ⟨f | _, s⟩
  · refine ⟨fun h => ?_, ?_⟩
    · cases h
      exact ⟨f, s, rfl, rfl⟩
    · rintro ⟨f', s', h, rfl⟩
      cases h
      rfl
  · refine ⟨fun h => ?_, ?_⟩
    · cases h
    · rintro ⟨f', s', h, -⟩
      cases h

-- ============================================================ the theorem

/-- Appending code changes nothing of what came before. If a text parses and its last
token is a semicolon, and another one without interface declarations parses, then the
one, a line feed and the other parse too, unless brackets nest too deep for a bound.
The items are those of the first text, with the ranges that they had, and then those
of the other, moved behind the first, where they spell what they did. A run of the
first that fails is a run of both that fails with the same report in the same state;
where it succeeds, both go on with the statements of the other from the state, and so
the frames, that it left, and the functions in these have the bodies that they had. -/
theorem appending_keeps_what_came_before (r : Surroundings) (source more : String) {t u : Tree}
    {list : TokenList} (ht : Tree.ofSource r.bounds r.file source = .ok t)
    (hlist : tokenize r.file source = .ok list) (hclosed : Parser.Closed list.tokens)
    (hu : Tree.ofSource r.bounds r.file more = .ok u)
    (hnone : ∀ n ∈ u.root.children, n.kind ≠ .interfaces) :
    let both := source ++ "\n" ++ more
    let d : Shift := ⟨source.toList.count '\n' + 1, (encode source.toList).length + 1⟩
    (∃ v, Tree.ofSource r.bounds r.file both = .ok v ∧
      v.root.children = t.root.children ++ u.root.children.map (Node.shift d) ∧
      (∀ n, (Node.shift d n).bytes v.source = n.bytes u.source) ∧
      (∀ e, runSource r source = .error e →
        runSource r both = .error e ∧ e.diagnostic? both = e.diagnostic? source) ∧
      (∀ e s, evaluate r t.root t.source = (.error e, s) →
        evaluate r v.root v.source = (.error e, s)) ∧
      ∀ s, evaluate r t.root t.source = (.ok (), s) →
        let env := r.env v.root v.source
        evaluate r v.root v.source =
            Eval.topLevel env (Eval.enter env env.config.maxCallDepth)
              (u.root.named.map (Node.shift d)) s ∧
          ∀ frame ∈ s.scopes.frames, ∀ p ∈ frame, ∀ f, .function f ∈ p.2.parts →
            v.root.descendant? f.start f.stop = t.root.descendant? f.start f.stop) ∨
    r.bounds.brackets ≠ none ∧
      ∃ e, Tree.ofSource r.bounds r.file both = .error (.parse e) ∧ e.fault = .tooDeep := by
  intro both d
  have hd : Shift.past (source.toList ++ ['\n']) = d := Shift.past_feed source.toList
  have hboth : both.toList = source.toList ++ '\n' :: more.toList := by
    simp [both]
  refine (Tree.ofSource_behind ht hlist hclosed hu hnone).imp_left fun hparsed => ?_
  obtain ⟨v, hv, hitems⟩ := hparsed
  rw [hd] at hitems
  have hmoved : ∀ n ∈ u.root.children.map (Node.shift d), n.kind ≠ .interfaces := by
    intro n hn
    obtain ⟨m, hm, rfl⟩ := List.mem_map.1 hn
    rw [Node.kind_shift]
    exact hnone m hm
  have hnamed : (u.root.children.map (Node.shift d)).filter Node.isNamed =
      u.root.named.map (Node.shift d) := by
    rw [List.filter_map, Node.named]
    exact congrArg _ (List.filter_congr fun n _ => Node.isNamed_shift)
  have hwell := Tree.ofSource_wellFormed ht
  have hwell' := Tree.ofSource_wellFormed hv
  have hinside := Tree.inside_of_source ht hv hboth hitems
  obtain ⟨hfails, hgoes⟩ := hwell.evaluate_behind hwell' hinside hitems hmoved r
  rw [hnamed] at hgoes
  refine ⟨v, hv, hitems, fun n => ?_, fun e he => ?_, hfails, fun s hs => ⟨hgoes s hs, ?_⟩⟩
  · rw [(Tree.ofSource_spells hv).1, (Tree.ofSource_spells hu).1, hboth, ← hd]
    exact n.bytes_shift source.toList more.toList
  · obtain ⟨f, s, hf, rfl⟩ := (runSource_error_iff ht).1 he
    refine ⟨(runSource_error_iff hv).2 ⟨f, s, hfails f s hf, rfl⟩, ?_⟩
    cases f <;> rfl
  · intro frame hframe p hp f hf
    have hfunctions := hwell.functions_inside hwell' hinside r
    rw [hs] at hfunctions
    rw [Scopes.frames_eq, List.mem_reverse] at hframe
    exact hfunctions frame hframe p hp _ hf f rfl

/-- A text that ends in a comment and runs to its end, and one that fails, with the
same text behind each of them. -/
theorem appending_keeps_what_came_before_comments :
    let r : Surroundings := { host := ⟨fun _ => .error .nullByte, fun _ _ => .error .badVariable⟩ }
    let runs := "let f = (x) => { return x; };\nlet a = f(1); // runs"
    let fails := "let f = (x) => { return y; };\nf(1); /* fails */"
    let more := "f(a);"
    (∃ t u v s, Tree.ofSource r.bounds r.file runs = .ok t ∧
      Tree.ofSource r.bounds r.file more = .ok u ∧
      Tree.ofSource r.bounds r.file (runs ++ "\n" ++ more) = .ok v ∧
      v.root.children = t.root.children ++ u.root.children.map (Node.shift ⟨2, 52⟩) ∧
      evaluate r t.root t.source = (.ok (), s) ∧
      let env := r.env v.root v.source
      evaluate r v.root v.source =
        Eval.topLevel env (Eval.enter env env.config.maxCallDepth)
          (u.root.named.map (Node.shift ⟨2, 52⟩)) s) ∧
    ∃ e, runSource r fails = .error e ∧ runSource r (fails ++ "\n" ++ more) = .error e ∧
      e.diagnostic? (fails ++ "\n" ++ more) = e.diagnostic? fails ∧
      (e.diagnostic? fails).isSome = true := by
  intro r runs fails more
  have hlimit : ¬r.bounds.brackets ≠ none := fun h => h rfl
  obtain ⟨u, hu⟩ : ∃ u, Tree.ofSource r.bounds r.file more = .ok u :=
    Tree.exists_of_isOk (by decide +kernel)
  have hnone : ∀ n ∈ u.root.children, n.kind ≠ .interfaces := by
    have hkinds : ((Tree.ofSource r.bounds r.file more).toOption.all fun u =>
        u.root.children.all (·.kind ≠ .interfaces)) = true := by
      decide +kernel
    rw [hu] at hkinds
    simpa [Except.toOption] using hkinds
  refine ⟨?_, ?_⟩
  · obtain ⟨t, list, ht, hlist, hclosed⟩ :=
      Tree.exists_of_closed r.bounds r.file runs (by decide +kernel) (by decide +kernel)
    have hplace : (⟨runs.toList.count '\n' + 1, (encode runs.toList).length + 1⟩ : Shift) =
        ⟨2, 52⟩ := by
      rw [Shift.mk.injEq]
      decide +kernel
    have hkept := appending_keeps_what_came_before r runs more ht hlist hclosed hu hnone
    dsimp only at hkept
    rw [hplace] at hkept
    rcases hkept with ⟨v, hv, hitems, -, -, -, hgoes⟩ | ⟨h, -⟩
    · have hends : ((Tree.ofSource r.bounds r.file runs).toOption.all fun t =>
          (evaluate r t.root t.source).1.isOk) = true := by
        decide +kernel
      rw [ht] at hends
      rcases hrun : evaluate r t.root t.source with ⟨e | _, s⟩
      · rw [Except.toOption, Option.all_some, hrun] at hends
        cases hends
      · exact ⟨t, u, v, s, ht, hu, hv, hitems, hrun, (hgoes s hrun).1⟩
    · exact absurd h hlimit
  · obtain ⟨t, list, ht, hlist, hclosed⟩ :=
      Tree.exists_of_closed r.bounds r.file fails (by decide +kernel) (by decide +kernel)
    rcases appending_keeps_what_came_before r fails more ht hlist hclosed hu hnone with
      ⟨v, -, -, -, hsame, -⟩ | ⟨h, -⟩
    · have hreport : (((runSource r fails).map fun _ => false).tryCatch fun e =>
          .ok (e.diagnostic? fails).isSome).toOption = some true := by
        decide +kernel
      rcases hrun : runSource r fails with e | s
      · rw [hrun] at hreport
        obtain ⟨hboth, hdiagnostic⟩ := hsame e hrun
        exact ⟨e, rfl, hboth, hdiagnostic, Option.some.inj hreport⟩
      · rw [hrun] at hreport
        cases hreport
    · exact absurd h hlimit

end SamScript
