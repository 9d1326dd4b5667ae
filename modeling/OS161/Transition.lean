import Mathlib.Data.Set.Basic

/-!
# Labelled transition systems and their runs

A system is a relation `step : σ → α → σ → Prop` : from a state, a label (an operation
with its result, a scheduler choice) leads to another state. A `Run` is a finite
sequence of steps with its trace, newest label first, so that a function defined by
recursion on a trace looks at the most recent label first.

`Run.trace_induct` is the one induction of the development : a relation between traces
and states that holds at the start and survives every step holds of every run. An
invariant (`Run.invariant`) is the case that forgets the trace, a refinement the case
that computes the abstract state from it.

`guarded` restricts a system to the steps that meet a condition on the state before the
step. `execute` runs a partial step function along a list of commands, oldest first, and
`Run.of_execute` turns a successful execution into a run, which is how concrete runs are
exhibited (`Run.exists_of_execute`).
-/

namespace OS161

variable {σ α : Type*} {step : σ → α → σ → Prop}

/-! ## Runs -/

/-- A run of `step` from `s₀`, with its trace, newest label first. -/
inductive Run (step : σ → α → σ → Prop) (s₀ : σ) : List α → σ → Prop
  | start : Run step s₀ [] s₀
  | snoc {l : List α} {s s' : σ} {a : α} :
      Run step s₀ l s → step s a s' → Run step s₀ (a :: l) s'

namespace Run

variable {s₀ s s' : σ} {l : List α}

/-- A relation between traces and states that every step preserves holds of every run. -/
theorem trace_induct {I : List α → σ → Prop} (h0 : I [] s₀)
    (hstep : ∀ l s a s', Run step s₀ l s → I l s → step s a s' → I (a :: l) s')
    (h : Run step s₀ l s) : I l s := by
  induction h with
  | start => exact h0
  | snoc hr hs ih => exact hstep _ _ _ _ hr ih hs

/-- A predicate that every step preserves holds in every state a run reaches. -/
theorem invariant {I : σ → Prop} (h0 : I s₀) (hstep : ∀ s a s', I s → step s a s' → I s')
    (h : Run step s₀ l s) : I s :=
  h.trace_induct (I := fun _ s => I s) h0 fun _ _ _ _ _ hi hs => hstep _ _ _ hi hs

/-- A run of a system is a run of every system with at least its steps. -/
theorem mono {step' : σ → α → σ → Prop} (hle : ∀ s a s', step s a s' → step' s a s')
    (h : Run step s₀ l s) : Run step' s₀ l s :=
  h.trace_induct (I := fun l s => Run step' s₀ l s) .start
    fun _ _ _ _ _ ih hs => .snoc ih (hle _ _ _ hs)

end Run

/-! ## Guarded systems -/

/-- The steps of `step` that meet `G` in the state before them. -/
def guarded (G : σ → α → Prop) (step : σ → α → σ → Prop) (s : σ) (a : α) (s' : σ) : Prop :=
  step s a s' ∧ G s a

theorem Run.of_guarded {G : σ → α → Prop} {s₀ s : σ} {l : List α}
    (h : Run (guarded G step) s₀ l s) : Run step s₀ l s :=
  h.mono fun _ _ _ hs => hs.1

/-! ## Executions -/

/-- Run the commands of a list, oldest first, with a partial step function that gives the
label of each step. The trace `tr` of what came before is extended. -/
def execute {β : Type*} (next : σ → β → Option (α × σ)) :
    List α → σ → List β → Option (List α × σ)
  | tr, s, [] => some (tr, s)
  | tr, s, b :: l => (next s b).bind fun r => execute next (r.1 :: tr) r.2 l

/-- An execution from the end of a run extends the run. -/
theorem Run.execute {β : Type*} {next : σ → β → Option (α × σ)}
    (hnext : ∀ s b a s', next s b = some (a, s') → step s a s') {s₀ : σ} :
    ∀ {tr tr' : List α} {s s' : σ} (l : List β), Run step s₀ tr s →
      execute next tr s l = some (tr', s') → Run step s₀ tr' s'
  | _, _, _, _, [], hr, h => by
    cases h
    exact hr
  | _, _, _, _, _ :: l, hr, h => by
    obtain ⟨⟨a, t⟩, ht, h'⟩ := Option.bind_eq_some_iff.mp h
    exact Run.execute hnext l (hr.snoc (hnext _ _ _ _ ht)) h'

theorem Run.of_execute {β : Type*} {next : σ → β → Option (α × σ)} {s s' : σ} {tr : List α}
    {l : List β} (h : OS161.execute next [] s l = some (tr, s'))
    (hnext : ∀ {s b a s'}, next s b = some (a, s') → step s a s') : Run step s tr s' := by
  refine Run.execute ?_ l .start h
  exact fun _ _ _ _ => hnext

/-- The run of an execution whose trace and last state are seen to meet `P`. -/
theorem Run.exists_of_execute {β : Type*} (next : σ → β → Option (α × σ))
    (hnext : ∀ {s b a s'}, next s b = some (a, s') → step s a s') (s : σ) (l : List β)
    (P : List α → σ → Prop) [∀ tr s', Decidable (P tr s')]
    (h : (OS161.execute next [] s l).map (fun r => decide (P r.1 r.2)) = some true) :
    ∃ tr s', Run step s tr s' ∧ P tr s' := by
  obtain ⟨⟨tr, s'⟩, he, hp⟩ := Option.map_eq_some_iff.mp h
  exact ⟨tr, s', .of_execute he hnext, of_decide_eq_true hp⟩

end OS161
