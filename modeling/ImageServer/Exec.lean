/-! Computations of a scripting language with errors. What was done to the state before
an error was raised stays done: nothing is rolled back, neither by the error nor by the
protected call that catches it. -/

namespace ImageServer

/-- The state comes back with the error as well as with the value. -/
def Exec (ε σ α : Type) : Type := σ → Except ε α × σ

namespace Exec
variable {ε σ α β : Type}

instance : Monad (Exec ε σ) where
  pure value := fun state => (.ok value, state)
  bind first next := fun state =>
    match first state with
    | (.ok value, after) => next value after
    | (.error raised, after) => (.error raised, after)

def raise (raised : ε) : Exec ε σ α := fun state => (.error raised, state)

def get : Exec ε σ σ := fun state => (.ok state, state)

def modify (f : σ → σ) : Exec ε σ Unit := fun state => (.ok (), f state)

def lift : Except ε α → Exec ε σ α := fun result state => (result, state)

/-- The protected call: an error becomes an ordinary value. -/
def pcall (program : Exec ε σ α) : Exec ε σ (Except ε α) := fun state =>
  (.ok (program state).1, (program state).2)

@[simp] theorem pure_run (value : α) (state : σ) : (pure value : Exec ε σ α) state = (.ok value, state) := rfl

@[simp] theorem raise_run (raised : ε) (state : σ) : (raise raised : Exec ε σ α) state = (.error raised, state) := rfl

@[simp] theorem get_run (state : σ) : (get : Exec ε σ σ) state = (.ok state, state) := rfl

@[simp] theorem modify_run (f : σ → σ) (state : σ) : (modify f : Exec ε σ Unit) state = (.ok (), f state) := rfl

@[simp] theorem lift_run (result : Except ε α) (state : σ) : (lift result : Exec ε σ α) state = (result, state) := rfl

@[simp] theorem pcall_run (program : Exec ε σ α) (state : σ) :
    pcall program state = (.ok (program state).1, (program state).2) := rfl

theorem bind_run (first : Exec ε σ α) (next : α → Exec ε σ β) (state : σ) :
    (first >>= next) state = match first state with
      | (.ok value, after) => next value after
      | (.error raised, after) => (.error raised, after) := rfl

theorem bind_ok {first : Exec ε σ α} {next : α → Exec ε σ β} {state after : σ} {value : α}
    (done : first state = (.ok value, after)) : (first >>= next) state = next value after := by
  rw [bind_run, done]

theorem bind_error {first : Exec ε σ α} {next : α → Exec ε σ β} {state after : σ} {raised : ε}
    (failed : first state = (.error raised, after)) : (first >>= next) state = (.error raised, after) := by
  rw [bind_run, failed]

theorem ok_of_bind {first : Exec ε σ α} {next : α → Exec ε σ β} {state after : σ} {value : β}
    (done : (first >>= next) state = (.ok value, after)) :
    ∃ middle between, first state = (.ok middle, between) ∧ next middle between = (.ok value, after) := by
  rw [bind_run] at done
  cases ran : first state with
  | mk result between =>
    rw [ran] at done
    cases result with
    | ok middle => exact ⟨middle, between, rfl, done⟩
    | error raised => cases done

/-- A relation between the state before and the state after, whatever the result. -/
def Within (relation : σ → σ → Prop) (program : Exec ε σ α) : Prop :=
  ∀ state, relation state (program state).2

namespace Within
variable {relation : σ → σ → Prop} {program : Exec ε σ α}

theorem pure (refl : ∀ state, relation state state) (value : α) :
    Within relation (Pure.pure value : Exec ε σ α) :=
  fun state => refl state

theorem get (refl : ∀ state, relation state state) : Within relation (Exec.get : Exec ε σ σ) :=
  fun state => refl state

theorem lift (refl : ∀ state, relation state state) (result : Except ε α) :
    Within relation (Exec.lift result : Exec ε σ α) :=
  fun state => refl state

theorem bind {next : α → Exec ε σ β} (trans : ∀ {a b c}, relation a b → relation b c → relation a c)
    (first : Within relation program) (rest : ∀ value, Within relation (next value)) :
    Within relation (program >>= next) := by
  intro state
  have moved := first state
  rw [bind_run]
  cases done : program state with
  | mk result after =>
    rw [done] at moved
    cases result with
    | ok value => exact trans moved (rest value after)
    | error failure => exact moved

theorem pcall (inner : Within relation program) : Within relation (pcall program) :=
  fun state => inner state

end Within
end Exec
end ImageServer
