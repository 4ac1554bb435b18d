import ImageServer.Proofs.Envelopes
import ImageServer.SenderIdentities

/-! Two senders have the same identity when the random numbers of their processes are equal. The
numbers of a process depend on nothing but how many messages it has sent, so processes that are in
step collide with every message. -/

namespace ImageServer.SenderIdentities
open MessageRouter

variable {generator : Generator}

theorem identityOf_injective {high low high' low' : UInt16} (same : identityOf high low = identityOf high' low') :
    high = high' ∧ low = low' := by
  simp only [identityOf, List.cons_append, List.nil_append, List.cons.injEq, and_true, true_and] at same
  obtain ⟨h1, h2, h3, h4, l1, l2, l3, l4⟩ := same
  have digit {a b : Nat} (small : a < 16) (small' : b < 16) := Zmsg.hexDigit_injective small small'
  have bounds := high.toNat_lt
  have bounds' := high'.toNat_lt
  have bounds2 := low.toNat_lt
  have bounds2' := low'.toNat_lt
  have first := digit (by omega) (by omega) h1
  have second := digit (by omega) (by omega) h2
  have third := digit (by omega) (by omega) h3
  have fourth := digit (by omega) (by omega) h4
  have fifth := digit (by omega) (by omega) l1
  have sixth := digit (by omega) (by omega) l2
  have seventh := digit (by omega) (by omega) l3
  have eighth := digit (by omega) (by omega) l4
  constructor <;> apply UInt16.toNat_inj.mp <;> omega

theorem randof_lt (state : generator.State) : (randof generator 0x10000 state).1 < 0x10000 := by
  have within := (generator.within 0 (0x10000 - 1) state (by omega)).2
  simp only [randof]
  omega

theorem draws_lt (generator : Generator) (calls : Nat) :
    (draws generator calls).1 < 0x10000 ∧ (draws generator calls).2 < 0x10000 :=
  ⟨randof_lt _, randof_lt _⟩

theorem formatIdentity_injective {numbers numbers' : Nat × Nat} (small : numbers.1 < 0x10000 ∧ numbers.2 < 0x10000)
    (small' : numbers'.1 < 0x10000 ∧ numbers'.2 < 0x10000) (same : formatIdentity numbers = formatIdentity numbers') :
    numbers = numbers' := by
  obtain ⟨high, low⟩ := identityOf_injective same
  have firsts := congrArg UInt16.toNat high
  have seconds := congrArg UInt16.toNat low
  simp only [UInt16.toNat_ofNat'] at firsts seconds
  rw [Nat.mod_eq_of_lt small.1, Nat.mod_eq_of_lt small'.1] at firsts
  rw [Nat.mod_eq_of_lt small.2, Nat.mod_eq_of_lt small'.2] at seconds
  exact Prod.ext firsts seconds

theorem after_succ (generator : Generator) (calls : Nat) :
    after generator (calls + 1) = (drawIdentity generator (after generator calls)).2 := by
  rw [after, Function.iterate_succ_apply']
  rfl

namespace Process

/-- The random numbers of a process, and the identity it has made of them, depend on its number of calls only. -/
def Aligned (process : Process generator) : Prop :=
  match process.stage with
  | .idle | .created _ => process.random = after generator process.calls
  | .named _ identity | .identified identity | .connected identity | .sent identity =>
    process.random = after generator (process.calls + 1) ∧ identity = formatIdentity (draws generator process.calls)

theorem start_aligned : (start : Process generator).Aligned := rfl

theorem advance_aligned {process : Process generator} (aligned : process.Aligned) (socket : Bool) :
    (process.advance socket).Aligned := by
  obtain ⟨random, stage, calls⟩ := process
  cases stage with
  | idle => exact aligned
  | created sender =>
    simp only [Aligned] at aligned
    subst aligned
    exact ⟨(after_succ generator calls).symm, rfl⟩
  | named sender identity =>
    cases sender with
    | true => exact aligned
    | false => exact aligned.1
  | identified identity | connected identity => exact aligned
  | sent identity => exact aligned.1

/-- An open sender has the identity that its process makes in this call. -/
theorem Aligned.openIdentity {process : Process generator} (aligned : process.Aligned) {identity : Bytes}
    (opened : process.stage.openIdentity = some identity) : identity = formatIdentity (draws generator process.calls) := by
  obtain ⟨random, stage, calls⟩ := process
  cases stage with
  | idle | created _ | named _ _ => cases opened
  | identified _ | connected _ | sent _ =>
    obtain rfl := Option.some.inj opened
    exact aligned.2

end Process

variable {ι : Type} [DecidableEq ι]

theorem step_aligned (state : State generator ι) (action : Action ι) (aligned : ∀ p, (state p).Aligned) (p : ι) :
    (step generator state action p).Aligned := by
  by_cases same : p = action.process
  · subst p
    rw [step, Function.update_self]
    exact Process.advance_aligned (aligned _) _
  · rw [step, Function.update_of_ne same]
    exact aligned p

/-- A step keeps the identities distinct exactly when the one that it leaves open is new. -/
theorem distinct_step_iff {state : State generator ι} (distinct : Distinct generator state) (action : Action ι) :
    Distinct generator (step generator state action) ↔
      ∀ identity, ((state action.process).advance action.socket).stage.openIdentity = some identity →
        ∀ q, q ≠ action.process → (state q).stage.openIdentity ≠ some identity := by
  constructor
  · intro holds identity opened q other same
    have here := holds action.process q identity other.symm
    simp only [step, Function.update_self, Function.update_of_ne other] at here
    exact here opened same
  · intro fresh p q identity different opened same
    by_cases first : p = action.process
    · subst p
      have other : q ≠ action.process := different.symm
      simp only [step, Function.update_self, Function.update_of_ne other] at opened same
      exact fresh identity opened q other same
    · by_cases second : q = action.process
      · subst q
        simp only [step, Function.update_self, Function.update_of_ne first] at opened same
        exact fresh identity same p first opened
      · simp only [step, Function.update_of_ne first, Function.update_of_ne second] at opened same
        exact distinct p q identity different opened same

/-- Only the step that sets an identity can make two senders the same. -/
theorem apart_iff {state : State generator ι} (aligned : ∀ p, (state p).Aligned) (distinct : Distinct generator state)
    (action : Action ι) : Apart generator state action ↔ Distinct generator (step generator state action) := by
  rw [distinct_step_iff distinct]
  have here := aligned action.process
  have unchanged (identity : Bytes) (opened : (state action.process).stage.openIdentity = some identity) (q : ι)
      (other : q ≠ action.process) : (state q).stage.openIdentity ≠ some identity :=
    distinct action.process q identity other.symm opened
  unfold Apart
  generalize process : state action.process = current at here unchanged ⊢
  obtain ⟨random, stage, calls⟩ := current
  cases stage with
  | idle | created _ => exact iff_of_true trivial (fun identity opened => by cases opened)
  | sent _ => exact iff_of_true trivial (fun identity opened => by cases opened)
  | identified set | connected set =>
    refine iff_of_true trivial ?_
    intro identity opened q other
    exact unchanged identity opened q other
  | named sender identity =>
    cases sender with
    | false => exact iff_of_true trivial (fun identity opened => by cases opened)
    | true =>
      obtain rfl : identity = formatIdentity (draws generator calls) := here.2
      constructor
      · intro apart identity opened q other same
        obtain rfl := Option.some.inj opened
        have made := (aligned q).openIdentity same
        exact apart q other (by simp [same]) (formatIdentity_injective (draws_lt ..) (draws_lt ..) made).symm
      · intro fresh q other opened same
        obtain ⟨identity, set⟩ := Option.isSome_iff_exists.mp opened
        have made := (aligned q).openIdentity set
        rw [same] at made
        exact fresh _ rfl q other (by rw [set, made])

/-- Two processes that both send their first message. -/
def together : List (Action Bool) := [true, false, true, false, true, false].map (⟨·, true⟩)

/-- Whatever the random numbers are, the first messages of two processes have the same identity. -/
theorem together_collides (generator : Generator) :
    ¬ Distinct generator (Runs.run (step generator) (fun _ => .start) together) := by
  intro distinct
  have first : (Runs.run (step generator) (fun _ => .start) together false).stage.openIdentity =
      some (formatIdentity (draws generator 0)) := rfl
  have second : (Runs.run (step generator) (fun _ => .start) together true).stage.openIdentity =
      some (formatIdentity (draws generator 0)) := rfl
  exact distinct false true _ (by decide) first second

def congruential : Generator where
  State := Nat
  fixed := 1
  random m n state := (m + state % (n + 1 - m), (1103515245 * state + 12345) % 2147483648)
  within m n state ordered := by
    have small := Nat.mod_lt state (show 0 < n + 1 - m by omega)
    simp only
    omega

end ImageServer.SenderIdentities
