import ImageServer.Proofs.ImageSystem

/-! Every thumbnail goes through the optimizer. Without new requests every step uses up a part of what is
still to be done, and where nothing is left to be done no thumbnail waits for the worker. -/

namespace ImageServer.ImageSystem
open CompressImage MessageRouter Runs

variable {κ ι : Type}

/-- What a process, a poller or the worker does from time to time. -/
inductive Kind (κ ι : Type) where
  | save (process : κ)
  | post (process : κ)
  | pass (kind : MessageRouter.Kind ι)

def Kind.Is : Kind κ ι → Action κ ι → Prop
  | .save process, action => action = .save process
  | .post process, action => ∃ sender, action = .post process sender
  | .pass kind, action => ∃ passed, kind.Is passed ∧ action = .pass passed

/-- Each text has four steps before it. -/
def stageCost : Stage → ℕ
  | .idle => 0
  | .begun _ _ texts => 4 * texts.length + 2
  | .saved texts => 4 * texts.length + 1

@[simp] theorem stageCost_idle : stageCost .idle = 0 := rfl

@[simp] theorem stageCost_begun (looked after : Files) (texts : List Bytes) :
    stageCost (.begun looked after texts) = 4 * texts.length + 2 := rfl

@[simp] theorem stageCost_saved (texts : List Bytes) : stageCost (.saved texts) = 4 * texts.length + 1 := rfl

variable [DecidableEq κ] [DecidableEq ι] {senders : Senders ι} {server : ImageProcessor} {stored : Image → Bytes}
  {system : System κ ι}

section Cost
variable [Fintype κ] [Fintype ι]

def cost (system : System κ ι) : ℕ := MessageRouter.cost system.net + ∑ process, stageCost (system.process process)

omit [DecidableEq κ] [Fintype κ] in
theorem cost_posted (net : Network ι) (sender : ι) (text : Bytes) :
    MessageRouter.cost (posted net sender text) = MessageRouter.cost net + 3 := by
  have longer := sum_update List.length net.toBroker sender (net.toBroker sender ++ [[text]])
  simp only [List.length_append, List.length_singleton] at longer
  simp only [MessageRouter.cost, posted]
  omega

theorem quiet_uses (described : ∃ flow, Describes senders flow system.net) {action : Action κ ι}
    (requestless : ∀ process host oriRequestPath, action ≠ .request process host oriRequestPath)
    (sendless : ∀ sender message, action ≠ .pass (.send sender message)) :
    step senders server stored system action = system ∨
      cost (step senders server stored system action) < cost system := by
  have staged (process : κ) (stage : Stage) := sum_update stageCost system.process process stage
  cases action with
  | request process host oriRequestPath => exact absurd rfl (requestless process host oriRequestPath)
  | save process =>
    cases stage : system.process process with
    | idle => exact Or.inl (by simp only [step, stage])
    | saved texts => exact Or.inl (by simp only [step, stage])
    | begun looked after texts =>
      have spent := staged process (.saved texts)
      simp only [stage, stageCost_begun, stageCost_saved] at spent
      right
      simp only [cost, step, stage, MessageRouter.cost, withDisk]
      omega
  | post process sender =>
    cases stage : system.process process with
    | idle => exact Or.inl (by simp only [step, stage])
    | begun looked after texts => exact Or.inl (by simp only [step, stage])
    | saved texts =>
      right
      cases texts with
      | nil =>
        have spent := staged process .idle
        simp only [stage, stageCost_idle, stageCost_saved, List.length_nil] at spent
        simp only [cost, step, stage]
        omega
      | cons text texts =>
        have spent := staged process (.saved texts)
        simp only [stage, stageCost_saved, List.length_cons] at spent
        simp only [cost, step, stage, cost_posted]
        omega
  | pass action =>
    obtain ⟨flow, describes⟩ := described
    have quiet (sender : ι) (message : JsonText) : action ≠ .send sender message := by
      rintro rfl
      exact sendless sender message rfl
    rcases MessageRouter.quiet_uses describes quiet with same | less
    · exact Or.inl (by simp only [step, same])
    · right
      simp only [cost, step]
      omega

end Cost

/-- Where no kind of step does anything, no text is under way. -/
theorem nothing_under_way {flow : Flow ι} (describes : Describes senders flow system.net)
    (nothing : ∀ kind : Kind κ ι, ∃ action, kind.Is action ∧ step senders server stored system action = system)
    (text : Bytes) : ¬ UnderWay senders system text := by
  have rest : AtRest system.net := by
    refine MessageRouter.at_rest describes fun kind => ?_
    obtain ⟨-, ⟨passed, is, rfl⟩, same⟩ := nothing (.pass kind)
    exact ⟨passed, is, congrArg System.net same⟩
  rintro (⟨process, unsent⟩ | ⟨i, queued⟩ | ⟨i, waiting⟩)
  · obtain ⟨-, ⟨sender, rfl⟩, same⟩ := nothing (.post process)
    have kept := congrFun (congrArg System.process same) process
    cases stage : system.process process with
    | idle => simp [stage, Stage.unsent] at unsent
    | begun looked after texts => simp [stage, Stage.unsent] at unsent
    | saved texts =>
      cases texts with
      | nil => simp [stage, Stage.unsent] at unsent
      | cons text texts =>
        simp only [step, stage, Function.update_self, Stage.saved.injEq] at kept
        exact absurd kept.symm (List.cons_ne_self _ _)
  · simp [rest.toBroker i] at queued
  · simp [rest.toWorker] at waiting

/-- Once no more requests come and everybody else is fair and careful, the system comes to rest with no text
under way. -/
theorem comes_at_rest [Finite κ] [Finite ι] {json : Json} {optimized : Bytes → Bytes} {uploads : Disk}
    (start : Sound senders server stored json optimized uploads system)
    (shared : server.thumbnailImagesRoot = appendPathSimbol2Tail thumbnailImaegRoot) (flag : server.sendMessageFlag = true)
    {schedule : ℕ → Action κ ι}
    (requestless : ∀ time process host oriRequestPath, schedule time ≠ .request process host oriRequestPath)
    (still : ∀ time system, Careful server json optimized system (schedule time)) (fair : Fair Kind.Is schedule) :
    ∃ rest, Sound senders server stored json optimized uploads (states (step senders server stored) system schedule rest) ∧
      (∀ text, ¬ UnderWay senders (states (step senders server stored) system schedule rest) text) ∧
      ∀ time, rest ≤ time → states (step senders server stored) system schedule time =
        states (step senders server stored) system schedule rest := by
  have := Fintype.ofFinite κ
  have := Fintype.ofFinite ι
  have sound (time : ℕ) : Sound senders server stored json optimized uploads
      (states (step senders server stored) system schedule time) := by
    refine states_keeps start ?_ (fun time => still time _) time
    intro system action sound allowed
    exact sound_step sound shared flag action allowed
  have sendless (time : ℕ) (sender : ι) (message : JsonText) : schedule time ≠ .pass (.send sender message) := by
    intro sends
    have allowed := still time system
    rw [sends] at allowed
    exact allowed
  have uses (time : ℕ) : states (step senders server stored) system schedule (time + 1) =
        states (step senders server stored) system schedule time ∨
      cost (states (step senders server stored) system schedule (time + 1)) <
        cost (states (step senders server stored) system schedule time) :=
    quiet_uses (sound time).described (requestless time) (sendless time)
  obtain ⟨rest, same, nothing⟩ := rests_fairly fair cost uses
  obtain ⟨flow, describes⟩ := (sound rest).described
  exact ⟨rest, sound rest, nothing_under_way describes nothing, same⟩

/-- Everybody in turn. -/
def albumTurns (time : ℕ) : Action Unit Unit :=
  match time % 5 with
  | 0 => .save ()
  | 1 => .post () ()
  | 2 => .pass (.front ())
  | 3 => .pass (.work albumWorker)
  | _ => .pass .back

theorem albumTurns_fair : Fair Kind.Is albumTurns := by
  have turn (place time : ℕ) (small : place < 5) : time ≤ 5 * time + place ∧ (5 * time + place) % 5 = place := by omega
  have comes (kind : Kind Unit Unit) (place : ℕ) (small : place < 5)
      (is : ∀ time, time % 5 = place → kind.Is (albumTurns time)) (time : ℕ) :
      ∃ later, time ≤ later ∧ kind.Is (albumTurns later) :=
    ⟨5 * time + place, (turn place time small).1, is _ (turn place time small).2⟩
  rintro (⟨⟨⟩⟩ | ⟨⟨⟩⟩ | ⟨⟨⟩⟩ | _ | _) time
  · exact comes (.save ()) 0 (by omega) (fun time here => by rw [albumTurns, here]; rfl) time
  · exact comes (.post ()) 1 (by omega) (fun time here => by rw [albumTurns, here]; exact ⟨(), rfl⟩) time
  · exact comes (.pass (.front ())) 2 (by omega) (fun time here => by rw [albumTurns, here]; exact ⟨_, rfl, rfl⟩) time
  · exact comes (.pass .back) 4 (by omega) (fun time here => by rw [albumTurns, here]; exact ⟨_, rfl, rfl⟩) time
  · exact comes (.pass .work) 3 (by omega) (fun time here => by rw [albumTurns, here]; exact ⟨_, ⟨albumWorker, rfl⟩, rfl⟩) time

end ImageServer.ImageSystem
