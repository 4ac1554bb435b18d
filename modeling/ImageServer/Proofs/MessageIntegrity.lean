import ImageServer.MessageRouter
import ImageServer.Proofs.Envelopes
import ImageServer.Runs

/-! No message is lost, doubled or mixed up between the senders, the broker and the worker, and
every reply belongs to the message that it answers. The whole of what is under way is spelled
out, hop by hop. -/

namespace ImageServer.MessageRouter
open Multipart CompressImage

variable {ι : Type}

structure Reply (ι : Type) where
  sender : ι
  body : Bytes
  status : Bytes

def Reply.handled (senders : Senders ι) (reply : Reply ι) : Handled :=
  ⟨some (senders.identity reply.sender), some reply.body, reply.status⟩

def Reply.parts (senders : Senders ι) (reply : Reply ι) : List Bytes :=
  [senders.identity reply.sender, reply.status]

/-- What the worker has taken and what still waits for it, and which replies are back and which are
under way. -/
structure Flow (ι : Type) where
  taken : List (ι × Bytes)
  waiting : List (ι × Bytes)
  returned : List (Reply ι)
  pending : List (Reply ι)

/-- Every part of the network is what the flow makes of it. -/
structure Describes [DecidableEq ι] (senders : Senders ι) (flow : Flow ι) (net : Network ι) : Prop where
  forwarded : net.forwarded = (flow.taken ++ flow.waiting).map fun message => (message.1, [message.2])
  toWorker : net.toWorker = ⟨flow.waiting.map fun message => [senders.identity message.1, message.2], []⟩
  handled : net.worker.handled = (flow.returned ++ flow.pending).map (Reply.handled senders)
  processed : (flow.returned ++ flow.pending).map (fun reply => (reply.sender, reply.body)) =
    flow.taken.filter (·.2 ≠ [])
  statuses : ∀ reply ∈ flow.returned ++ flow.pending, reply.status = bytes "success" ∨ reply.status = bytes "failed"
  toBackend : net.worker.out = ⟨flow.pending.map (Reply.parts senders), []⟩
  running : net.stopped = none
  frontend : net.frontend = ⟨[], []⟩
  delivered : ∀ i, net.delivered i = (flow.returned.filter (·.sender = i)).map fun reply => [reply.status]
  sent : ∀ i, ∃ queue, net.toBroker i = queue.map ([·]) ∧
    net.sent i = ((flow.taken ++ flow.waiting).filter (·.1 = i)).map (·.2) ++ queue
  texts : ∀ i, ∀ body ∈ net.sent i, body.head? ≠ some 0

theorem length_identity (senders : Senders ι) (i : ι) : (senders.identity i).length = 9 := by
  obtain ⟨high, low, same⟩ := senders.generated i
  rw [same]
  rfl

/-- Identities of senders are neither written nor read as texts for others. -/
theorem identity_back (senders : Senders ι) (i : ι) :
    Zmsg.recvPart (senders.identity i) = .ok (senders.identity i) ∧
      Zmsg.sendPart (senders.identity i) = .ok (senders.identity i) := by
  have nine := length_identity senders i
  constructor
  · rw [Zmsg.recvPart, if_neg (fun generated => by omega)]
  · rw [Zmsg.sendPart, if_neg (fun long => by omega)]

theorem text_read {body : Bytes} (text : body.head? ≠ some 0) : Zmsg.recvPart body = .ok body := by
  rw [Zmsg.recvPart, if_neg (fun generated => text generated.2)]

variable [DecidableEq ι] {senders : Senders ι} {flow : Flow ι} {net : Network ι}

/-- Whatever waits for the worker has been sent as the text of a value. -/
theorem Describes.waiting_text (describes : Describes senders flow net) {i : ι} {body : Bytes}
    (member : (i, body) ∈ flow.taken ++ flow.waiting) : body.head? ≠ some 0 := by
  obtain ⟨queue, -, sent⟩ := describes.sent i
  apply describes.texts i body
  rw [sent]
  apply List.mem_append_left
  exact List.mem_map.mpr ⟨(i, body), List.mem_filter.mpr ⟨member, by simp⟩, rfl⟩

theorem describes_send (describes : Describes senders flow net) (i : ι) (message : JsonText) :
    Describes senders flow (step senders net (.send i message)) := by
  refine { describes with sent := ?_, texts := ?_ }
  · intro j
    obtain ⟨queue, queued, sent⟩ := describes.sent j
    by_cases same : j = i
    · subst j
      refine ⟨queue ++ [message.1], ?_, ?_⟩
      · simp [step, queued]
      · simp [step, sent]
    · refine ⟨queue, ?_, ?_⟩
      · simp [step, same, queued]
      · simp [step, same, sent]
  · intro j body member
    by_cases same : j = i
    · subst j
      simp only [step, Function.update_self, List.mem_append, List.mem_singleton] at member
      rcases member with earlier | rfl
      · exact describes.texts i body earlier
      · exact message.2
    · simp only [step, Function.update_of_ne same] at member
      exact describes.texts j body member

theorem describes_front (describes : Describes senders flow net) (i : ι) :
    ∃ after, Describes senders after (step senders net (.front i)) := by
  obtain ⟨queue, queued, sent⟩ := describes.sent i
  cases queue with
  | nil =>
    refine ⟨flow, ?_⟩
    simp only [step, queued, List.map_nil]
    exact describes
  | cons body queue =>
    simp only [step, queued, List.map_cons]
    refine ⟨{ flow with waiting := flow.waiting ++ [(i, body)] }, { describes with
      forwarded := ?_, toWorker := ?_, sent := ?_ }⟩
    · simp [describes.forwarded]
    · rw [relay_parts (by simp), describes.toWorker]
      simp
    · intro j
      by_cases same : j = i
      · subst j
        exact ⟨queue, by simp, by simp [sent]⟩
      · obtain ⟨others, queued', sent'⟩ := describes.sent j
        refine ⟨others, by simp [same, queued'], ?_⟩
        simp [sent', Ne.symm same]

theorem route_reply (senders : Senders ι) (delivered : ι → List (List Bytes)) (reply : Reply ι) (i : ι) :
    route senders delivered (reply.parts senders) i =
      if reply.sender = i then delivered i ++ [[reply.status]] else delivered i := by
  simp only [route, Reply.parts, senders.distinct.eq_iff, eq_comm]

theorem describes_back (describes : Describes senders flow net) :
    ∃ after, Describes senders after (step senders net .back) := by
  cases pending : flow.pending with
  | nil =>
    refine ⟨flow, ?_⟩
    simp only [step, describes.toBackend, pending, List.map_nil]
    exact describes
  | cons reply rest =>
    have whole : flow.returned ++ flow.pending = flow.returned ++ [reply] ++ rest := by simp [pending]
    simp only [step, describes.toBackend, pending, List.map_cons]
    refine ⟨{ flow with returned := flow.returned ++ [reply], pending := rest }, { describes with
      handled := ?_, processed := ?_, statuses := ?_, toBackend := rfl, frontend := ?_, delivered := ?_ }⟩
    · exact whole ▸ describes.handled
    · exact whole ▸ describes.processed
    · exact whole ▸ describes.statuses
    · rw [relay_parts (by simp [Reply.parts]), describes.frontend]
    · intro i
      rw [relay_parts (by simp [Reply.parts]), describes.frontend]
      simp only [List.nil_append, List.foldl_cons, List.foldl_nil, route_reply, describes.delivered, List.filter_append,
        List.filter_cons, List.filter_nil, List.map_append]
      by_cases same : reply.sender = i <;> simp [same]

theorem describes_work (describes : Describes senders flow net) (host : CompressImage.Host) :
    ∃ after, Describes senders after (step senders net (.work host)) := by
  cases waiting : flow.waiting with
  | nil =>
    refine ⟨flow, ?_⟩
    simp only [step, describes.running, describes.toWorker, waiting, List.map_nil]
    exact describes
  | cons message rest =>
    obtain ⟨i, body⟩ := message
    have whole : flow.taken ++ flow.waiting = flow.taken ++ [(i, body)] ++ rest := by simp [waiting]
    obtain ⟨read, back⟩ := identity_back senders i
    simp only [step, describes.running, describes.toWorker, waiting, List.map_cons]
    by_cases empty : body = []
    · subst body
      rw [turn_empty host read]
      refine ⟨{ flow with taken := flow.taken ++ [(i, [])], waiting := rest }, { describes with
        forwarded := ?_, toWorker := rfl, processed := ?_, sent := ?_, running := rfl }⟩
      · exact whole ▸ describes.forwarded
      · simpa using describes.processed
      · exact whole ▸ describes.sent
    · have text := text_read (@Describes.waiting_text _ _ _ _ _ describes i body (by simp [waiting]))
      rw [turn_answered host read back text empty]
      generalize onMessageArrive host body net.worker.world = arrived
      refine ⟨⟨flow.taken ++ [(i, body)], rest, flow.returned, flow.pending ++ [⟨i, body, statusOf arrived.1⟩]⟩, {
        describes with
        forwarded := ?_, toWorker := rfl, handled := ?_, processed := ?_, statuses := ?_, toBackend := ?_,
        running := rfl, sent := ?_ }⟩
      · exact whole ▸ describes.forwarded
      · simp [describes.handled, Reply.handled]
      · have processed := describes.processed
        simp only [← List.append_assoc, List.map_append, List.filter_append] at processed ⊢
        rw [processed]
        simp [empty]
      · intro reply member
        rw [← List.append_assoc, List.mem_append, List.mem_singleton] at member
        rcases member with earlier | rfl
        · exact describes.statuses reply earlier
        · exact (statusOf_cases arrived.1).symm
      · simp [describes.toBackend, Reply.parts]
      · exact whole ▸ describes.sent

theorem describes_start (senders : Senders ι) (world : CompressImage.World) :
    Describes senders ⟨[], [], [], []⟩ (Network.start world : Network ι) where
  forwarded := rfl
  toWorker := rfl
  handled := rfl
  processed := rfl
  statuses := by simp
  toBackend := rfl
  running := rfl
  frontend := rfl
  delivered _ := rfl
  sent _ := ⟨[], rfl, rfl⟩
  texts := by simp [Network.start]

/-- Some flow describes the network after every run: what the worker has processed and what waits for it
is what the broker has passed on, in its order and without its empty messages, and what was delivered
to a sender and what is under way to it are the statuses of its own messages, in their order. -/
theorem messages_intact (senders : Senders ι) (world : CompressImage.World) (actions : List (Action ι)) :
    ∃ flow, Describes senders flow (Runs.run (step senders) (Network.start world) actions) := by
  have start : ∃ flow, Describes senders flow (Network.start world : Network ι) := ⟨_, describes_start senders world⟩
  refine @Runs.run_invariant _ _ (step senders) (fun net => ∃ flow, Describes senders flow net) ?_ _ start actions
  intro net action described
  obtain ⟨flow, describes⟩ := described
  cases action with
  | send i message => exact ⟨flow, describes_send describes i message⟩
  | front i => exact describes_front describes i
  | back => exact describes_back describes
  | work host => exact describes_work describes host

end ImageServer.MessageRouter
