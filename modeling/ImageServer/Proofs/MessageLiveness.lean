import ImageServer.Proofs.MessageIntegrity
import ImageServer.Schedules
import Mathlib.Data.Fintype.EquivFin

/-! Every message is answered in the end. No step but a send adds to what is under way, every step that
does something uses some of it up, and a network with nothing under way has answered everything. -/

namespace ImageServer.MessageRouter
open Multipart CompressImage Runs

variable {ι : Type}

/-- What a poller or the worker does from time to time. -/
inductive Kind (ι : Type) where
  | front (sender : ι)
  | back
  | work

def Kind.Is : Kind ι → Action ι → Prop
  | .front i, action => action = .front i
  | .back, action => action = .back
  | .work, action => ∃ host, action = .work host

/-- Each non-empty message that a sender sent was answered to it, once and in its order. -/
def Answered (net : Network ι) (i : ι) : Prop :=
  ∃ replies : List (Bytes × Bytes), replies.map Prod.fst = (net.sent i).filter (· ≠ []) ∧
    net.delivered i = replies.map (fun reply => [reply.2]) ∧
    ∀ reply ∈ replies, reply.2 = bytes "success" ∨ reply.2 = bytes "failed"

structure AtRest (net : Network ι) : Prop where
  toBroker : ∀ i, net.toBroker i = []
  toWorker : net.toWorker.sent = []
  toBackend : net.worker.out.sent = []

variable [DecidableEq ι] {senders : Senders ι} {flow : Flow ι} {net : Network ι}

/-- What nobody has under way any more, the worker has taken. -/
theorem Describes.all_taken (describes : Describes senders flow net) (rest : AtRest net) (i : ι) :
    net.sent i = (flow.taken.filter (·.1 = i)).map Prod.snd := by
  have waiting : flow.waiting = [] := by
    have none := rest.toWorker
    rwa [describes.toWorker, List.map_eq_nil_iff] at none
  obtain ⟨queue, queued, sent⟩ := describes.sent i
  have unsent : queue = [] := List.map_eq_nil_iff.mp (queued.symm.trans (rest.toBroker i))
  rw [sent, waiting, unsent, List.append_nil, List.append_nil]

theorem Describes.answered (describes : Describes senders flow net) (rest : AtRest net) (i : ι) : Answered net i := by
  have pending : flow.pending = [] := by
    have none := rest.toBackend
    rwa [describes.toBackend, List.map_eq_nil_iff] at none
  have processed := describes.processed
  have statuses := describes.statuses
  rw [pending, List.append_nil] at processed statuses
  refine ⟨(flow.returned.filter (·.sender = i)).map fun reply => (reply.body, reply.status), ?_, ?_, ?_⟩
  · rw [describes.all_taken rest i, List.filter_map, List.filter_filter]
    have mine := congrArg (fun messages => (messages.filter fun message => message.1 = i).map Prod.snd) processed
    simp only [List.filter_map, List.map_map, List.filter_filter, Function.comp_def] at mine ⊢
    rw [mine]
    congr 2
    funext message
    rw [Bool.and_comm]
  · rw [describes.delivered i, List.map_map]
    rfl
  · intro reply member
    obtain ⟨returned, among, rfl⟩ := List.mem_map.mp member
    exact statuses returned (List.mem_filter.mp among).1

section Cost
variable [Fintype ι]

/-- Each message has three steps before it, and a reply has one. -/
def cost (net : Network ι) : ℕ :=
  3 * ∑ i, (net.toBroker i).length + 2 * net.toWorker.sent.length + net.worker.out.sent.length

theorem front_uses (describes : Describes senders flow net) (i : ι) :
    step senders net (.front i) = net ∨ cost (step senders net (.front i)) < cost net := by
  cases queued : net.toBroker i with
  | nil => exact Or.inl (by simp only [step, queued])
  | cons parts rest =>
    have shorter := sum_update List.length net.toBroker i rest
    rw [queued, List.length_cons] at shorter
    right
    simp only [cost, step, queued, relay_parts (List.cons_ne_nil _ _), describes.toWorker, List.length_append,
      List.length_map, List.length_singleton]
    omega

theorem back_uses : step senders net .back = net ∨ cost (step senders net .back) < cost net := by
  cases pending : net.worker.out.sent with
  | nil => exact Or.inl (by simp only [step, pending])
  | cons parts rest =>
    right
    simp only [cost, step, pending, List.length_cons]
    omega

theorem work_uses (describes : Describes senders flow net) (host : CompressImage.Host) :
    step senders net (.work host) = net ∨ cost (step senders net (.work host)) < cost net := by
  cases waiting : flow.waiting with
  | nil => exact Or.inl (by simp only [step, describes.running, describes.toWorker, waiting, List.map_nil])
  | cons message rest =>
    obtain ⟨i, body⟩ := message
    obtain ⟨read, back⟩ := identity_back senders i
    right
    simp only [cost, step, describes.running, describes.toWorker, waiting, List.map_cons]
    by_cases empty : body = []
    · subst body
      rw [turn_empty host read]
      simp only [List.length_cons]
      omega
    · have text := text_read (@Describes.waiting_text _ _ _ _ _ describes i body (by simp [waiting]))
      rw [turn_answered host read back text empty]
      simp only [List.length_cons, List.length_append, List.length_nil]
      omega

theorem quiet_uses (describes : Describes senders flow net) {action : Action ι}
    (quiet : ∀ i message, action ≠ .send i message) :
    step senders net action = net ∨ cost (step senders net action) < cost net := by
  cases action with
  | send i message => exact absurd rfl (quiet i message)
  | front i => exact front_uses describes i
  | back => exact back_uses
  | work host => exact work_uses describes host

end Cost

theorem described_step (described : ∃ flow, Describes senders flow net) (action : Action ι) :
    ∃ flow, Describes senders flow (step senders net action) := by
  obtain ⟨flow, describes⟩ := described
  cases action with
  | send i message => exact ⟨flow, describes_send describes i message⟩
  | front i => exact describes_front describes i
  | back => exact describes_back describes
  | work host => exact describes_work describes host

/-- Where no kind of step does anything, nothing is under way. -/
theorem at_rest (describes : Describes senders flow net)
    (nothing : ∀ kind : Kind ι, ∃ action, kind.Is action ∧ step senders net action = net) : AtRest net where
  toBroker i := by
    obtain ⟨-, rfl, same⟩ := nothing (.front i)
    cases queued : net.toBroker i with
    | nil => rfl
    | cons parts rest =>
      have taken := congrFun (congrArg Network.toBroker same) i
      simp only [step, queued, Function.update_self] at taken
      exact absurd taken.symm (List.cons_ne_self _ _)
  toWorker := by
    obtain ⟨-, ⟨host, rfl⟩, same⟩ := nothing .work
    cases waiting : net.toWorker.sent with
    | nil => rfl
    | cons parts rest =>
      have taken := congrArg (fun net : Network ι => net.toWorker.sent) same
      simp only [step, describes.running, waiting] at taken
      exact absurd taken.symm (List.cons_ne_self _ _)
  toBackend := by
    obtain ⟨-, rfl, same⟩ := nothing .back
    cases pending : net.worker.out.sent with
    | nil => rfl
    | cons parts rest =>
      have taken := congrArg (fun net : Network ι => net.worker.out.sent) same
      simp only [step, pending] at taken
      exact absurd taken.symm (List.cons_ne_self _ _)

/-- Once the senders are quiet and the others are fair, the network comes to rest with nothing under way. -/
theorem comes_at_rest [Finite ι] (described : ∃ flow, Describes senders flow net) {schedule : ℕ → Action ι}
    (quiet : ∀ time i message, schedule time ≠ .send i message) (fair : Fair Kind.Is schedule) :
    ∃ rest flow, Describes senders flow (states (step senders) net schedule rest) ∧
      AtRest (states (step senders) net schedule rest) ∧
      ∀ time, rest ≤ time → states (step senders) net schedule time = states (step senders) net schedule rest := by
  have := Fintype.ofFinite ι
  have described := @states_keeps _ _ (step senders) net schedule (fun net => ∃ flow, Describes senders flow net)
    (fun _ _ => True) described (fun _ action described _ => described_step described action) fun _ => trivial
  have uses (time : ℕ) : states (step senders) net schedule (time + 1) = states (step senders) net schedule time ∨
      cost (states (step senders) net schedule (time + 1)) < cost (states (step senders) net schedule time) := by
    obtain ⟨flow, describes⟩ := described time
    exact quiet_uses describes (quiet time)
  obtain ⟨rest, same, nothing⟩ := rests_fairly fair cost uses
  obtain ⟨flow, describes⟩ := described rest
  exact ⟨rest, flow, describes, at_rest describes nothing, same⟩

/-- Once the senders are quiet and the others are fair, there is a time from which on every non-empty
message of every sender has been answered to it. -/
theorem every_message_answered [Finite ι] (senders : Senders ι) (world : CompressImage.World) (actions : List (Action ι))
    {schedule : ℕ → Action ι} (quiet : ∀ time i message, schedule time ≠ .send i message) (fair : Fair Kind.Is schedule) :
    ∃ rest, ∀ time, rest ≤ time → ∀ i,
      Answered (states (step senders) (run (step senders) (Network.start world) actions) schedule time) i := by
  have start : ∃ flow, Describes senders flow (Network.start world : Network ι) := ⟨_, describes_start senders world⟩
  have described := @run_invariant _ _ (step senders) (fun net => ∃ flow, Describes senders flow net)
    (fun _ action described => described_step described action) _ start actions
  obtain ⟨rest, flow, describes, nothing, same⟩ := comes_at_rest described quiet fair
  refine ⟨rest, fun time later i => ?_⟩
  rw [same time later]
  exact describes.answered nothing i

/-- Two senders. -/
def pair : Senders Bool where
  identity i := identityOf (if i then 1 else 0) 0
  generated i := ⟨_, _, rfl⟩
  distinct := by
    intro i j same
    revert same
    revert i j
    decide

/-- It can read no message. -/
def failing : CompressImage.Host := .running id ⟨true, .complete⟩ fun _ => .error .argument

/-- Everybody in turn. -/
def turns (time : ℕ) : Action Bool :=
  match time % 4 with
  | 0 => .front true
  | 1 => .front false
  | 2 => .work failing
  | _ => .back

theorem turns_fair : Fair Kind.Is turns := by
  have turn (place time : ℕ) (small : place < 4) : time ≤ 4 * time + place ∧ (4 * time + place) % 4 = place := by omega
  rintro (⟨_ | _⟩ | _ | _) time
  · refine ⟨4 * time + 1, by omega, ?_⟩
    rw [turns, (turn 1 time (by omega)).2]
    rfl
  · refine ⟨4 * time + 0, by omega, ?_⟩
    rw [turns, (turn 0 time (by omega)).2]
    rfl
  · refine ⟨4 * time + 3, by omega, ?_⟩
    rw [turns, (turn 3 time (by omega)).2]
    rfl
  · refine ⟨4 * time + 2, by omega, failing, ?_⟩
    rw [turns, (turn 2 time (by omega)).2]
    rfl

theorem pair_answered : ∃ rest, ∀ time, rest ≤ time → ∀ i,
    Answered (states (step pair) (run (step pair) (Network.start ⟨fun _ => none, [], []⟩)
      [.send true ⟨bytes "{}", by decide⟩, .send false ⟨bytes "{}", by decide⟩]) turns time) i := by
  refine every_message_answered pair ⟨fun _ => none, [], []⟩ _ ?_ turns_fair
  intro time i message
  unfold turns
  split <;> simp

end ImageServer.MessageRouter
