import ImageServer.Runs
import Mathlib.Algebra.BigOperators.Group.Finset.Basic
import Mathlib.Order.WellFounded

/-! Endless schedules. A system in which every input changes nothing or uses something up comes to
rest, and a schedule that is fair leaves it only where no input would change anything. -/

namespace ImageServer.Runs

variable {σ ι κ : Type} (step : σ → ι → σ)

/-- The states along an endless schedule. -/
def states (start : σ) (schedule : ℕ → ι) : ℕ → σ
  | 0 => start
  | time + 1 => step (states start schedule time) (schedule time)

variable {step} {start : σ} {schedule : ℕ → ι}

theorem states_keeps {invariant : σ → Prop} {allowed : σ → ι → Prop} (begins : invariant start)
    (keeps : ∀ state input, invariant state → allowed state input → invariant (step state input))
    (along : ∀ time, allowed (states step start schedule time) (schedule time)) (time : ℕ) :
    invariant (states step start schedule time) := by
  induction time with
  | zero => exact begins
  | succ time ih => exact keeps _ _ ih (along time)

/-- What is counted over all parts changes as the one part does. -/
theorem sum_update {β : Type} [Fintype κ] [DecidableEq κ] (size : β → ℕ) (parts : κ → β) (part : κ) (value : β) :
    ∑ i, size (Function.update parts part value i) + size (parts part) = ∑ i, size (parts i) + size value := by
  have others : ∑ i ∈ Finset.univ.erase part, size (Function.update parts part value i) =
      ∑ i ∈ Finset.univ.erase part, size (parts i) := by
    apply Finset.sum_congr rfl
    intro i member
    rw [Function.update_of_ne (Finset.ne_of_mem_erase member)]
  have before := Finset.add_sum_erase Finset.univ (fun i => size (parts i)) (Finset.mem_univ part)
  have after := Finset.add_sum_erase Finset.univ (fun i => size (Function.update parts part value i)) (Finset.mem_univ part)
  simp only [Function.update_self, others] at after
  omega

/-- The states are the runs over the first inputs. -/
theorem states_run (time : ℕ) : states step start schedule time = run step start ((List.range time).map schedule) := by
  induction time with
  | zero => rfl
  | succ time ih =>
    rw [states, ih, List.range_succ, List.map_append, run, run, List.foldl_append]
    rfl

/-- A part of the state that every step leaves alone or uses up. The least cost along the way is the last
one. -/
theorem settles {τ : Type} (part : σ → τ) (cost : τ → ℕ)
    (uses : ∀ time, part (states step start schedule (time + 1)) = part (states step start schedule time) ∨
      cost (part (states step start schedule (time + 1))) < cost (part (states step start schedule time))) :
    ∃ rest, ∀ time, rest ≤ time → part (states step start schedule time) = part (states step start schedule rest) := by
  obtain ⟨rest, least⟩ :=
    (measure fun time => cost (part (states step start schedule time))).wf.has_min Set.univ ⟨0, trivial⟩
  refine ⟨rest, fun time later => ?_⟩
  induction time, later using Nat.le_induction with
  | base => rfl
  | succ time _ ih =>
    rcases uses time with same | less
    · exact same.trans ih
    · rw [ih] at less
      exact absurd less (least.2 (time + 1) trivial)

theorem comes_to_rest (cost : σ → ℕ)
    (uses : ∀ time, states step start schedule (time + 1) = states step start schedule time ∨
      cost (states step start schedule (time + 1)) < cost (states step start schedule time)) :
    ∃ rest, ∀ time, rest ≤ time → states step start schedule time = states step start schedule rest :=
  settles id cost uses

/-- Every kind of input comes again and again. -/
def Fair (is : κ → ι → Prop) (schedule : ℕ → ι) : Prop :=
  ∀ kind time, ∃ later, time ≤ later ∧ is kind (schedule later)

/-- Where a fair schedule comes to rest, some input of every kind changes nothing. -/
theorem rests_fairly {is : κ → ι → Prop} (fair : Fair is schedule) (cost : σ → ℕ)
    (uses : ∀ time, states step start schedule (time + 1) = states step start schedule time ∨
      cost (states step start schedule (time + 1)) < cost (states step start schedule time)) :
    ∃ rest, (∀ time, rest ≤ time → states step start schedule time = states step start schedule rest) ∧
      ∀ kind, ∃ input, is kind input ∧
        step (states step start schedule rest) input = states step start schedule rest := by
  obtain ⟨rest, same⟩ := comes_to_rest cost uses
  refine ⟨rest, same, fun kind => ?_⟩
  obtain ⟨later, after, of⟩ := fair kind rest
  refine ⟨schedule later, of, ?_⟩
  have next : states step start schedule (later + 1) = _ := same (later + 1) (by omega)
  rwa [states, same later after] at next

end ImageServer.Runs
