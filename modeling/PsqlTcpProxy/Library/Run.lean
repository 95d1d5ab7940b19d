import Mathlib.Data.List.Basic

/-!
# Runs of a partial step function

A program that takes inputs one at a time is a step function `σ → ε → Option σ`,
where `none` is a failed assertion.  `run` feeds it a list of inputs.  These rules
carry an invariant along a run:

* `run_total`, when the invariant makes every input go through;
* `run_reaches`, when besides that one input brings a measure down, and `run_finishes`, when
  the inputs of one party do;
* `run_invariant`, when the invariant survives only the steps that `Meets` a
  condition on the state before the step and its input.

`Meets.imp` and `meets_congr` compare two such conditions.

`run_simulates` compares the runs of two programs.

Every prefix of a run is a run (`run_append`, `Meets.of_append`), so a statement
about the end of every run is a statement about every state a run reaches.
-/

namespace PsqlTcpProxy
namespace Library

variable {σ ε : Type*}

/-- Feed the inputs one after the other. -/
def run (step : σ → ε → Option σ) : σ → List ε → Option σ
  | s, [] => some s
  | s, e :: es => (step s e).bind fun s' => run step s' es

@[simp] theorem run_nil (step : σ → ε → Option σ) (s : σ) : run step s [] = some s := rfl

@[simp] theorem run_cons (step : σ → ε → Option σ) (s : σ) (e : ε) (es : List ε) :
    run step s (e :: es) = (step s e).bind fun s' => run step s' es := rfl

theorem run_append (step : σ → ε → Option σ) (s : σ) (es es' : List ε) :
    run step s (es ++ es') = (run step s es).bind fun s' => run step s' es' := by
  induction es generalizing s with
  | nil => rfl
  | cons e es ih =>
    rw [List.cons_append, run_cons, run_cons, Option.bind_assoc]
    exact congrArg _ (funext ih)

/-- One step, and a run from where it leads. -/
theorem run_step {step : σ → ε → Option σ} {s t : σ} {u : Option σ} {e : ε} {es : List ε}
    (h : step s e = some t) (h' : run step t es = u) : run step s (e :: es) = u := by
  rw [run_cons, h, Option.bind_some, h']

/-- A run, and another one from where it leads. -/
theorem run_trans {step : σ → ε → Option σ} {s t : σ} {u : Option σ} {es es' : List ε}
    (h : run step s es = some t) (h' : run step t es' = u) : run step s (es ++ es') = u := by
  rw [run_append, h, Option.bind_some, h']

/-- Every step along the run satisfies `P`, read at the state before it. -/
def Meets (step : σ → ε → Option σ) (P : σ → ε → Prop) : σ → List ε → Prop
  | _, [] => True
  | s, e :: es => P s e ∧ ∀ s', step s e = some s' → Meets step P s' es

instance Meets.decidable {step : σ → ε → Option σ} {P : σ → ε → Prop} [∀ s, DecidablePred (P s)] :
    (s : σ) → (es : List ε) → Decidable (Meets step P s es)
  | _, [] => .isTrue trivial
  | s, e :: es =>
    match hs : step s e with
    | none => decidable_of_iff (P s e) (by simp [Meets, hs])
    | some s' =>
      have : Decidable (Meets step P s' es) := Meets.decidable s' es
      decidable_of_iff (P s e ∧ Meets step P s' es) (by simp [Meets, hs])

/-- A run whose two parts meet the condition. -/
theorem Meets.append {step : σ → ε → Option σ} {P : σ → ε → Prop} {s : σ} {es es' : List ε}
    (h : Meets step P s es) (h' : ∀ t, run step s es = some t → Meets step P t es') :
    Meets step P s (es ++ es') := by
  induction es generalizing s with
  | nil => exact h' s rfl
  | cons e es ih =>
    refine ⟨h.1, fun s' hs' => ih (h.2 s' hs') fun t ht => h' t ?_⟩
    rw [run_cons, hs', Option.bind_some, ht]

/-- A condition on the inputs alone. -/
theorem meets_of_forall {step : σ → ε → Option σ} {P : ε → Prop} (s : σ) {es : List ε}
    (h : ∀ e ∈ es, P e) : Meets step (fun _ e => P e) s es := by
  induction es generalizing s with
  | nil => trivial
  | cons e es ih =>
    obtain ⟨hfirst, hrest⟩ := List.forall_mem_cons.mp h
    exact ⟨hfirst, fun s' _ => ih s' hrest⟩

/-- **A condition that follows from another one** where an invariant holds. -/
theorem Meets.imp {step : σ → ε → Option σ} {P Q : σ → ε → Prop} {J : σ → Prop} {s : σ}
    {es : List ε} (h : Meets step P s es) (hs : J s) (himp : ∀ s e, J s → P s e → Q s e)
    (hkeep : ∀ s e s', J s → P s e → step s e = some s' → J s') : Meets step Q s es := by
  induction es generalizing s with
  | nil => trivial
  | cons e es ih =>
    exact ⟨himp s e hs h.1, fun s' hs' => ih (h.2 s' hs') (hkeep s e s' hs h.1 hs')⟩

/-- **Two conditions on a run.**  Where an invariant makes them agree on a step, and the first
of them keeps the invariant, they agree on a run. -/
theorem meets_congr {step : σ → ε → Option σ} {P Q : σ → ε → Prop} {J : σ → Prop}
    (hagree : ∀ s e, J s → (P s e ↔ Q s e))
    (hkeep : ∀ s e s', J s → P s e → step s e = some s' → J s') {s : σ} (hs : J s) (es : List ε) :
    Meets step P s es ↔ Meets step Q s es := by
  induction es generalizing s with
  | nil => exact Iff.rfl
  | cons e es ih =>
    rw [Meets, Meets, ← hagree s e hs]
    exact and_congr_right fun hP => forall_congr' fun s' =>
      forall_congr' fun hstep => ih (hkeep s e s' hs hP hstep)

/-- The steps of a run that never gets stuck: those of its first part, and those of
its second part from where the first part ends. -/
theorem meets_append {f : σ → ε → σ} {P : σ → ε → Prop} (s : σ) (es es' : List ε) :
    Meets (fun s e => some (f s e)) P s (es ++ es') ↔
      Meets (fun s e => some (f s e)) P s es ∧
        Meets (fun s e => some (f s e)) P (es.foldl f s) es' := by
  induction es generalizing s with
  | nil => simp [Meets]
  | cons e es ih => simp [Meets, ih, and_assoc]

/-- **Simulation.**  If every step is a step of another program, or none, a run is a run of the
other program, and what its steps meet theirs meet. -/
theorem run_simulates {τ δ : Type*} {step : σ → ε → Option σ} {step' : τ → δ → Option τ}
    {R : σ → τ → Prop} {P : σ → ε → Prop} {Q : τ → δ → Prop}
    (hsim : ∀ s q e s', R s q → P s e → step s e = some s' →
      R s' q ∨ ∃ d q', Q q d ∧ step' q d = some q' ∧ R s' q')
    {s t : σ} {q : τ} {es : List ε} (hR : R s q) (hmeets : Meets step P s es)
    (hrun : run step s es = some t) :
    ∃ ds q', Meets step' Q q ds ∧ run step' q ds = some q' ∧ R t q' := by
  induction es generalizing s q with
  | nil =>
    obtain rfl := Option.some.inj hrun
    exact ⟨[], q, trivial, rfl, hR⟩
  | cons e es ih =>
    rw [run_cons, Option.bind_eq_some_iff] at hrun
    obtain ⟨s', hs', hrun⟩ := hrun
    rcases hsim s q e s' hR hmeets.1 hs' with hsame | ⟨d, q', hd, hstep, hnext⟩
    · exact ih hsame (hmeets.2 s' hs') hrun
    · obtain ⟨ds, q'', hmeets', hrun', hlast⟩ := ih hnext (hmeets.2 s' hs') hrun
      refine ⟨d :: ds, q'', ⟨hd, fun r hr => ?_⟩, ?_, hlast⟩
      · obtain rfl := Option.some.inj (hstep.symm.trans hr)
        exact hmeets'
      · rw [run_cons, hstep, Option.bind_some, hrun']

/-- **A run that cannot get stuck.**  If the invariant makes every step succeed
and survives it, every run succeeds and ends in a state with the invariant. -/
theorem run_total {step : σ → ε → Option σ} {I : σ → Prop}
    (hstep : ∀ s e, I s → ∃ s', step s e = some s' ∧ I s') {s : σ} (hs : I s) (es : List ε) :
    ∃ s', run step s es = some s' ∧ I s' := by
  induction es generalizing s with
  | nil => exact ⟨s, rfl, hs⟩
  | cons e es ih =>
    obtain ⟨s', hs', hI⟩ := hstep s e hs
    obtain ⟨t, ht, hIt⟩ := ih hI
    exact ⟨t, by rw [run_cons, hs', Option.bind_some, ht], hIt⟩

/-- **A run that gets there.**  If one input, repeated, always goes through, keeps the
invariant and brings a measure down until something is done, it gets done. -/
theorem run_reaches {step : σ → ε → Option σ} {I done : σ → Prop} {e : ε} (rank : σ → ℕ)
    (hstep : ∀ s, I s → ¬ done s → ∃ s', step s e = some s' ∧ I s' ∧ rank s' < rank s) {s : σ}
    (hs : I s) : ∃ n s', run step s (List.replicate n e) = some s' ∧ I s' ∧ done s' := by
  induction hrank : rank s using Nat.strongRecOn generalizing s with
  | ind m ih =>
    by_cases hdone : done s
    · exact ⟨0, s, rfl, hs, hdone⟩
    · obtain ⟨s', hs', hI, hlt⟩ := hstep s hs hdone
      obtain ⟨n, t, hrun, ht⟩ := ih (rank s') (hrank ▸ hlt) hI rfl
      refine ⟨n + 1, t, ?_, ht⟩
      rw [List.replicate_succ, run_cons, hs', Option.bind_some, hrun]

/-- **A run in which one party gets there.**  If its own inputs bring a measure down until
something is done, and the others' do not raise it, then it gets done after as many of its own
inputs as the measure says, however they are mixed with the others'. -/
theorem run_finishes {step : σ → ε → Option σ} {I done : σ → Prop} (mine : ε → Bool) (rank : σ → ℕ)
    (hzero : ∀ s, rank s = 0 → done s)
    (hstep : ∀ s e, I s → ¬ done s → ∃ s', step s e = some s' ∧ I s' ∧ rank s' ≤ rank s ∧
      (mine e = true → rank s' < rank s)) {s : σ} (hs : I s) {es : List ε}
    (hcount : rank s ≤ es.countP mine) :
    ∃ before after t, es = before ++ after ∧ run step s before = some t ∧ I t ∧ done t := by
  induction es generalizing s with
  | nil => exact ⟨[], [], s, rfl, rfl, hs, hzero s (Nat.le_zero.mp hcount)⟩
  | cons e es ih =>
    by_cases hdone : done s
    · exact ⟨[], e :: es, s, rfl, rfl, hs, hdone⟩
    · obtain ⟨s', hs', hI, hle, hlt⟩ := hstep s e hs hdone
      have hrest : rank s' ≤ es.countP mine := by
        rw [List.countP_cons] at hcount
        split at hcount
        · have := hlt ‹_›
          omega
        · omega
      obtain ⟨before, after, t, rfl, hrun, hIt, hdonet⟩ := ih hI hrest
      refine ⟨e :: before, after, t, rfl, ?_, hIt, hdonet⟩
      rw [run_cons, hs', Option.bind_some, hrun]

/-- **The invariant rule.**  An invariant that survives every step meeting `P`
holds at the end of every run all of whose steps meet `P`. -/
theorem run_invariant {step : σ → ε → Option σ} {P : σ → ε → Prop} {I : σ → Prop}
    (hstep : ∀ s e s', I s → P s e → step s e = some s' → I s') {s t : σ} {es : List ε}
    (hs : I s) (hmeets : Meets step P s es) (hrun : run step s es = some t) : I t := by
  induction es generalizing s with
  | nil =>
    obtain rfl := Option.some.inj hrun
    exact hs
  | cons e es ih =>
    rw [run_cons, Option.bind_eq_some_iff] at hrun
    obtain ⟨s', hs', hrun⟩ := hrun
    exact ih (hstep s e s' hs hmeets.1 hs') (hmeets.2 s' hs') hrun

end Library
end PsqlTcpProxy
