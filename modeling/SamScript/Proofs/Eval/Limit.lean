/-
The limit on calls. Under a higher limit a run does what it does under a
lower one, up to the point where the lower one is hit: the two run parallel
until the first ends in the fault of its limit, and nothing on the way out
absorbs that fault. So an outcome other than that fault is the outcome under
every higher limit.
-/
import SamScript.Proofs.Eval.Abreast

namespace SamScript

-- ================================================================= limits

/-- The same surroundings with another limit on calls. -/
def Surroundings.limited (r : Surroundings) (limit : Nat) : Surroundings :=
  { r with config := { r.config with maxCallDepth := limit } }

/-- The failures of a run in which as many calls were active as the limit
allows. -/
def Failure.IsCallDepth (limit : Nat) (e : Failure) : Prop :=
  ∃ place, e = .fault (.callDepth limit) place

variable (r : Surroundings) (root : Node) (source : List UInt8)

/-- A node spells the same under every limit. -/
theorem Surroundings.text_limited (n m : Nat) (c : Node) :
    ((r.limited m).env root source).text c = ((r.limited n).env root source).text c :=
  rfl

/-- Evaluation of one tree under two limits differs in nothing but the
limits. -/
theorem Surroundings.limited_abreast (n m : Nat) :
    Eval.Abreast (· = ·) (· = ·) ((r.limited n).env root source)
      ((r.limited m).env root source) where
  near_self _ := rfl
  bounds := rfl
  entry _ _ := rfl
  launch _ := rfl
  root := rfl
  body _ := rel_self (fun _ => rfl) _
  kind h := by rw [h]
  isNamed h := by rw [h]
  field h := by rw [h]
  children h := by
    rw [h]
    exact List.forall₂_same.2 fun _ _ => rfl
  place h := by
    rw [h]
    rfl
  text h _ := by
    rw [h]
    rfl
  operator h _ := by
    rw [h]
    rfl
  access h _ := by
    rw [h]
    exact rel_self (r.text_limited root source n m) _
  declared h _ := by
    rw [h]
    exact rel_self (r.text_limited root source n m) _
  close h _ := by
    rw [h]
    exact rel_self (fun _ => ⟨rfl, rfl⟩) _

/-- A run that does not hit its limit is the same run under a higher one. -/
theorem evaluate_limited {n m : Nat} (hle : n ≤ m)
    (h : ∀ e, (evaluate (r.limited n) root source).1 = .error e → ¬ e.IsCallDepth n) :
    evaluate (r.limited m) root source = evaluate (r.limited n) root source := by
  have hrun : Run.Parallel (· = .callDepth n) (· = ·)
      (Eval.program ((r.limited n).env root source))
      (Eval.program ((r.limited m).env root source)) :=
    Eval.parallel_program (r.limited_abreast root source n m) hle (.inr rfl)
  have hbeside := hrun {}
  unfold evaluate at h ⊢
  generalize Eval.program ((r.limited n).env root source) {} = x,
    Eval.program ((r.limited m).env root source) {} = y at h hbeside ⊢
  cases hbeside with
  | ok a s => rfl
  | error he s => rw [he.eq]
  | halted hcause place s _ => exact absurd ⟨place, hcause ▸ rfl⟩ (h _ rfl)

-- ============================================================ the theorem

/-- Raising the limit on calls changes no outcome but that of hitting it: a
run of any tree over any bytes, or of a program text, that under one limit
ends in anything other than the fault of that limit, ends under every higher
limit in the same result and the same state. -/
theorem higher_call_limit_keeps_outcomes {n m : Nat} (hle : n ≤ m) :
    (∀ root source,
      (∀ e, (evaluate (r.limited n) root source).1 = .error e → ¬ e.IsCallDepth n) →
      evaluate (r.limited m) root source = evaluate (r.limited n) root source) ∧
    ∀ text, (∀ e, runSource (r.limited n) text = .error (.eval e) → ¬ e.IsCallDepth n) →
      runSource (r.limited m) text = runSource (r.limited n) text := by
  refine ⟨fun root source h => evaluate_limited r root source hle h, fun text h => ?_⟩
  unfold runSource at h ⊢
  rw [show (r.limited m).bounds = (r.limited n).bounds from rfl,
    show (r.limited m).file = (r.limited n).file from rfl]
  cases htree : Tree.ofSource (r.limited n).bounds (r.limited n).file text with
  | error e => rfl
  | ok tree =>
    rw [htree] at h
    dsimp only at h ⊢
    rw [evaluate_limited r tree.root tree.source hle fun e he => h e ?_]
    generalize evaluate (r.limited n) tree.root tree.source = x at he
    rcases x with ⟨_ | _, s⟩
    · cases he
      rfl
    · cases he

/-- A program that calls a function once, under the limits one and two. -/
theorem higher_call_limit_keeps_outcomes_one_call :
    let r : Surroundings := { host := ⟨fun _ => .error .nullByte, fun _ _ => .error .badVariable⟩ }
    let text := "let f = (x) => { return x; }; f(1);"
    1 ≤ 2 ∧ (∀ e, runSource (r.limited 1) text = .error (.eval e) → ¬ e.IsCallDepth 1) ∧
      runSource (r.limited 2) text = runSource (r.limited 1) text := by
  intro r text
  have hok : (runSource (r.limited 1) text).isOk = true := by
    decide +kernel
  have hmiss : ∀ e, runSource (r.limited 1) text = .error (.eval e) → ¬ e.IsCallDepth 1 := by
    intro e he
    rw [he] at hok
    cases hok
  exact ⟨by decide, hmiss, (higher_call_limit_keeps_outcomes r (by decide)).2 text hmiss⟩

end SamScript
