/-! Runs of a system that takes one input after another: what every allowed step keeps,
every allowed run keeps. -/

namespace ImageServer.Runs

variable {σ ι : Type} (step : σ → ι → σ)

def run (state : σ) (inputs : List ι) : σ := inputs.foldl step state

@[simp] theorem run_nil (state : σ) : run step state [] = state := rfl

@[simp] theorem run_cons (state : σ) (input : ι) (inputs : List ι) :
    run step state (input :: inputs) = run step (step state input) inputs := rfl

theorem run_invariant {step : σ → ι → σ} {invariant : σ → Prop}
    (keeps : ∀ state input, invariant state → invariant (step state input)) {state : σ} (start : invariant state)
    (inputs : List ι) : invariant (run step state inputs) := by
  induction inputs generalizing state with
  | nil => exact start
  | cons input inputs ih => exact ih (keeps state input start)

/-- Every step of the run is allowed in the state it is taken in. -/
def Along (allowed : σ → ι → Prop) : σ → List ι → Prop
  | _, [] => True
  | state, input :: inputs => allowed state input ∧ Along allowed (step state input) inputs

variable {step} {allowed : σ → ι → Prop}

theorem Along.append {state : σ} {first second : List ι} (along : Along step allowed state (first ++ second)) :
    Along step allowed state first ∧ Along step allowed (run step state first) second := by
  induction first generalizing state with
  | nil => exact ⟨trivial, along⟩
  | cons input first ih =>
    obtain ⟨here, later⟩ := ih along.2
    exact ⟨⟨along.1, here⟩, later⟩

theorem run_keeps {invariant : σ → Prop}
    (keeps : ∀ state input, invariant state → allowed state input → invariant (step state input))
    {state : σ} {inputs : List ι} (start : invariant state) (along : Along step allowed state inputs) :
    invariant (run step state inputs) := by
  induction inputs generalizing state with
  | nil => exact start
  | cons input inputs ih => exact ih (keeps state input start along.1) along.2

/-- An invariant turns what is allowed at every step into what is promised at every step. -/
theorem Along.of_invariant {invariant : σ → Prop} {promised : σ → ι → Prop}
    (keeps : ∀ state input, invariant state → allowed state input → invariant (step state input))
    (implies : ∀ state input, invariant state → allowed state input → promised state input)
    {state : σ} {inputs : List ι} (start : invariant state) (along : Along step allowed state inputs) :
    Along step promised state inputs := by
  induction inputs generalizing state with
  | nil => trivial
  | cons input inputs ih =>
    exact ⟨implies state input start along.1, ih (keeps state input start along.1) along.2⟩

/-- If what is allowed is exactly what keeps a state safe, the runs that are allowed at every step are
the runs that are safe throughout. -/
theorem safe_iff_along {invariant safe : σ → Prop} (keeps : ∀ state input, invariant state → invariant (step state input))
    (exact : ∀ state input, invariant state → safe state → (allowed state input ↔ safe (step state input)))
    {state : σ} (start : invariant state) (begins : safe state) (inputs : List ι) :
    (∀ first, first <+: inputs → safe (run step state first)) ↔ Along step allowed state inputs := by
  induction inputs generalizing state with
  | nil =>
    refine iff_of_true ?_ trivial
    intro first initial
    rwa [List.prefix_nil.mp initial]
  | cons input inputs ih =>
    constructor
    · intro holds
      have next : safe (step state input) := holds [input] (by simp)
      refine ⟨(exact state input start begins).mpr next, (ih (keeps state input start) next).mp ?_⟩
      intro first initial
      exact holds (input :: first) (by simpa using initial)
    · intro along first initial
      have next : safe (step state input) := (exact state input start begins).mp along.1
      cases first with
      | nil => exact begins
      | cons other first =>
        obtain ⟨rfl, rest⟩ := List.cons_prefix_cons.mp initial
        exact (ih (keeps _ _ start) next).mpr along.2 first rest

end ImageServer.Runs
