import ImageServer.MessageRouter
import ImageServer.Runs

/-! The senders that nginx worker processes open in `sendMessage`. Every process has random numbers
of its own. Nothing seeds them, so they start in the same state everywhere. -/

namespace ImageServer.SenderIdentities
open MessageRouter

/-- `math.random` between two bounds, and the state that a process begins with. -/
structure Generator where
  State : Type
  fixed : State
  random : Nat → Nat → State → Nat × State
  within : ∀ m n state, m ≤ n → m ≤ (random m n state).1 ∧ (random m n state).1 ≤ n

variable (generator : Generator)

/-- The number is whole already, so `floor` leaves it alone. -/
def randof (num : Nat) (state : generator.State) : Nat × generator.State := generator.random 0 (num - 1) state

/-- The two numbers of one identity, drawn from left to right. -/
def drawIdentity (state : generator.State) : (Nat × Nat) × generator.State :=
  let (high, state) := randof generator 0x10000 state
  let (low, state) := randof generator 0x10000 state
  ((high, low), state)

def formatIdentity (numbers : Nat × Nat) : Bytes := identityOf (.ofNat numbers.1) (.ofNat numbers.2)

inductive Stage where
  | idle
  /-- `context:socket` has answered, with a socket or with nil. -/
  | created (sender : Bool)
  | named (sender : Bool) (identity : Bytes)
  | identified (identity : Bytes)
  | connected (identity : Bytes)
  | sent (identity : Bytes)

def Stage.openIdentity : Stage → Option Bytes
  | .identified identity | .connected identity | .sent identity => some identity
  | .idle | .created _ | .named _ _ => none

structure Process where
  random : generator.State
  stage : Stage
  calls : Nat

namespace Process
variable {generator}

def start : Process generator := ⟨generator.fixed, .idle, 0⟩

/-- The next statement of `sendMessage`. To set the identity of nil raises an error. -/
def advance (process : Process generator) (socket : Bool) : Process generator :=
  match process.stage with
  | .idle => { process with stage := .created socket }
  | .created sender =>
    let (numbers, random) := drawIdentity generator process.random
    { process with random, stage := .named sender (formatIdentity numbers) }
  | .named sender identity =>
    if sender then { process with stage := .identified identity }
    else { process with stage := .idle, calls := process.calls + 1 }
  | .identified identity => { process with stage := .connected identity }
  | .connected identity => { process with stage := .sent identity }
  | .sent _ => { process with stage := .idle, calls := process.calls + 1 }

end Process

/-- One process takes one step. The answer of `context:socket` matters only where it is called. -/
structure Action (ι : Type) where
  process : ι
  socket : Bool

variable {ι : Type} [DecidableEq ι]

abbrev State (ι : Type) := ι → Process generator

def step (state : State generator ι) (action : Action ι) : State generator ι :=
  Function.update state action.process ((state action.process).advance action.socket)

def Distinct (state : State generator ι) : Prop :=
  ∀ p q identity, p ≠ q → (state p).stage.openIdentity = some identity → (state q).stage.openIdentity ≠ some identity

/-- The random numbers of a process after so many calls of `sendMessage`. -/
def after (calls : Nat) : generator.State := (fun state => (drawIdentity generator state).2)^[calls] generator.fixed

/-- The two numbers that `math.random` yields in a call after so many others. -/
def draws (calls : Nat) : Nat × Nat := (drawIdentity generator (after generator calls)).1

/-- Where a process sets an identity, the numbers for it are not those of another open sender. -/
def Apart (state : State generator ι) (action : Action ι) : Prop :=
  match (state action.process).stage with
  | .named true _ => ∀ q, q ≠ action.process → (state q).stage.openIdentity.isSome = true →
      draws generator (state q).calls ≠ draws generator (state action.process).calls
  | _ => True

end ImageServer.SenderIdentities
