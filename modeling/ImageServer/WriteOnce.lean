import ImageServer.Runs
import Mathlib.Logic.Function.Basic

/-! A store that is only added to. Where every step adds one entry at most, at a place where there was
none, every entry stays as it is from the step on in which it was made. -/

namespace ImageServer.WriteOnce
open Runs

variable {κ ν σ ι : Type} [DecidableEq κ]

/-- Whatever was found before is found after. -/
def Extends (before after : κ → Option ν) : Prop := ∀ key value, before key = some value → after key = some value

omit [DecidableEq κ] in
theorem Extends.refl (store : κ → Option ν) : Extends store store := fun _ _ found => found

omit [DecidableEq κ] in
theorem Extends.trans {a b c : κ → Option ν} (first : Extends a b) (second : Extends b c) : Extends a c :=
  fun key value found => second key value (first key value found)

/-- How an entry may be made, given what was in the store then. -/
abbrev Maker (κ ν : Type) : Type := (κ → Option ν) → κ → ν → Prop

/-- What could be made once can be made with more in the store. -/
def Maker.Lasting (made : Maker κ ν) : Prop :=
  ∀ before after, Extends before after → ∀ key value, made before key value → made after key value

/-- One entry is new at most, at a place where there was none. -/
inductive Adds (made : Maker κ ν) (before after : κ → Option ν) : Prop
  | nothing (same : after = before)
  | entry (key : κ) (value : ν) (free : before key = none) (of : made before key value)
      (added : after = Function.update before key (some value))

variable {made : Maker κ ν} {start before after : κ → Option ν}

theorem Adds.extends (adds : Adds made before after) : Extends before after := by
  intro key value found
  cases adds with
  | nothing same => rwa [same]
  | entry place entry free of added =>
    have elsewhere : key ≠ place := by
      rintro rfl
      cases found.symm.trans free
    rw [added, Function.update_of_ne elsewhere, found]

/-- Nothing has changed but for entries that were made where there was nothing. -/
structure Grown (made : Maker κ ν) (start now : κ → Option ν) : Prop where
  extends_start : Extends start now
  entries : ∀ key value, now key = some value → start key = some value ∨ (start key = none ∧ made now key value)

omit [DecidableEq κ] in
theorem Grown.refl (made : Maker κ ν) (store : κ → Option ν) : Grown made store store where
  extends_start := .refl store
  entries _ _ found := Or.inl found

theorem Grown.adds (lasting : made.Lasting) (grown : Grown made start before) (adds : Adds made before after) :
    Grown made start after where
  extends_start := grown.extends_start.trans adds.extends
  entries := by
    intro key value found
    have later {key : κ} {value : ν} (earlier : before key = some value) :
        start key = some value ∨ (start key = none ∧ made after key value) := by
      rcases grown.entries key value earlier with first | ⟨free, of⟩
      · exact Or.inl first
      · exact Or.inr ⟨free, lasting before after adds.extends key value of⟩
    have extends_before := adds.extends
    cases adds with
    | nothing same => exact later (same ▸ found)
    | entry place entry free of added =>
      by_cases here : key = place
      · subst here
        rw [added, Function.update_self] at found
        obtain rfl := Option.some.inj found
        refine Or.inr ⟨?_, lasting before after extends_before key entry of⟩
        cases first : start key with
        | none => rfl
        | some other => cases (grown.extends_start key other first).symm.trans free
      · rw [added, Function.update_of_ne here] at found
        exact later found

theorem run_grown {step : σ → ι → σ} {store : σ → κ → Option ν} {allowed : σ → ι → Prop} (lasting : made.Lasting)
    (adds : ∀ state input, allowed state input → Adds made (store state) (store (step state input)))
    {state : σ} {inputs : List ι} (along : Along step allowed state inputs) :
    Grown made (store state) (store (run step state inputs)) := by
  have keeps (now : σ) (input : ι) (grown : Grown made (store state) (store now)) (can : allowed now input) :
      Grown made (store state) (store (step now input)) := grown.adds lasting (adds now input can)
  exact run_keeps keeps (.refl made _) along

end ImageServer.WriteOnce
