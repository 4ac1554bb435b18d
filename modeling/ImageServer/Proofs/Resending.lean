import ImageServer.Proofs.MessageLiveness
import ImageServer.Proofs.WorkerRuns

/-! What goes on to the second server: of all that the senders have sent exactly the messages about a
thumbnail, each of them once and in the order in which the broker has passed them on, whether there was
anything to compress or not. -/

namespace ImageServer
namespace CompressImage

/-- A message about a thumbnail with the two names that it needs. An empty message is not read. -/
def resent (decode : Bytes → Except LuaError Value) (body : Bytes) : Bool :=
  match decode body with
  | .ok (.table fields) =>
    !body.isEmpty && Value.truthy (field fields "sourceImageName") && Value.isNumber (field fields "msgType") 2 &&
      (Value.removePathSimbolAtHead (field fields "targetImageName") >>= Value.concatenated).isOk
  | _ => false

theorem resent_present {decode : Bytes → Except LuaError Value} {body : Bytes} (kept : resent decode body = true) :
    body ≠ [] := by
  rintro rfl
  simp only [resent, List.isEmpty_nil, Bool.not_true, Bool.false_and] at kept
  split at kept <;> cases kept

/-- The messages for the second server, as they are sent. -/
def forSecond (decode : Bytes → Except LuaError Value) (bodies : List Bytes) : List (Bytes × Bytes) :=
  (bodies.filter (resent decode)).map fun body => (resendServerUrl, body)

theorem forSecond_append (decode : Bytes → Except LuaError Value) (first second : List Bytes) :
    forSecond decode (first ++ second) = forSecond decode first ++ forSecond decode second := by
  simp [forSecond]

theorem forSecond_present (decode : Bytes → Except LuaError Value) (bodies : List Bytes) :
    forSecond decode (bodies.filter (· ≠ [])) = forSecond decode bodies := by
  rw [forSecond, List.filter_filter]
  congr 2
  funext body
  rcases Bool.eq_false_or_eq_true (resent decode body) with kept | dropped
  · simp [kept, resent_present kept]
  · simp [dropped]

theorem compressImage_sent (host : Host) (path : Bytes) (world : World) :
    (compressImage host path world).2.sent = world.sent := by
  simp only [compressImage, Exec.bind_run, Exec.modify_run, Exec.get_run, execute]
  split
  · simp only [Exec.bind_run, Exec.modify_run, Exec.get_run]
    split <;> rfl
  · rfl

theorem onMessageArrive_sent (host : Host) {jsonMsg : Bytes} (present : jsonMsg ≠ []) (socket : host.socket jsonMsg = true)
    (world : World) : (onMessageArrive host jsonMsg world).2.sent = world.sent ++ forSecond host.decode [jsonMsg] := by
  have nonempty : jsonMsg.isEmpty = false := by simpa using present
  cases decoded : host.decode jsonMsg with
  | error raised => simp [onMessageArrive, Exec.bind_run, decoded, forSecond, resent]
  | ok msg =>
    cases msg with
    | null | number value =>
      simp [onMessageArrive, Exec.bind_run, decoded, Value.truthy, Value.index, forSecond, resent]
    | boolean flag =>
      cases flag <;> simp [onMessageArrive, Exec.bind_run, decoded, Value.truthy, Value.index, forSecond, resent]
    | string text => simp [onMessageArrive, Exec.bind_run, decoded, Value.truthy, Value.index, forSecond, resent]
    | table fields =>
      rcases Bool.eq_false_or_eq_true (Value.truthy (field fields "sourceImageName")) with named | nameless
      · rw [onMessageArrive_run host jsonMsg world decoded named]
        split
        next two =>
          split
          next raised path => simp [forSecond, resent, decoded, path, Except.isOk, Except.toBool]
          next name path =>
            simp [forSecond, resent, decoded, nonempty, named, two, path, Except.isOk, Except.toBool, sendMessage, socket,
              compressImage_sent, Exec.modify_run]
        next two =>
          have other : forSecond host.decode [jsonMsg] = [] := by simp [forSecond, resent, decoded, two]
          rw [other, List.append_nil]
          split
          next three =>
            split
            next => exact compressImage_sent host _ world
            next => rfl
            next => rfl
          next => split <;> rfl
      · rw [onMessageArrive_nameless host jsonMsg world decoded nameless]
        simp [forSecond, resent, decoded, nameless]

end CompressImage

namespace MessageRouter
open CompressImage Multipart Runs

variable {ι : Type} [DecidableEq ι]

/-- If the worker takes a message, it has the one JSON library, and its sockets open. -/
def Uses (decode : Bytes → Except LuaError Value) (_ : Network ι) : Action ι → Prop
  | .work host => host.decode = decode ∧ ∀ message, host.socket message = true
  | _ => True

/-- What one sender has sent of the messages of all. -/
def ofSender (messages : List (ι × Bytes)) (i : ι) : List Bytes := (messages.filter (·.1 = i)).map Prod.snd

/-- All that has gone on since are the messages that the worker has handled. -/
def Resends (decode : Bytes → Except LuaError Value) (before : List (Bytes × Bytes)) (net : Network ι) : Prop :=
  net.worker.world.sent = before ++ forSecond decode (net.worker.handled.filterMap Handled.jsonMsg)

variable {senders : Senders ι} {decode : Bytes → Except LuaError Value} {before : List (Bytes × Bytes)} {flow : Flow ι}
  {net : Network ι}

theorem resends_work (describes : Describes senders flow net) {host : CompressImage.Host}
    (uses : Uses decode net (.work host)) (resends : Resends decode before net) :
    Resends decode before (step senders net (.work host)) := by
  obtain ⟨same, socket⟩ := uses
  rcases work_takes describes host with idle | ⟨i, body, rest, takes⟩
  · rwa [idle]
  by_cases empty : body = []
  · rw [Resends, takes.empty empty]
    exact resends
  · have sent := onMessageArrive_sent host empty (socket body) net.worker.world
    rw [Resends, takes.world empty, takes.handled empty, sent, resends, same, List.filterMap_append, forSecond_append,
      List.append_assoc]
    rfl

/-- The worker has handled what it has taken, without the empty messages. -/
theorem Describes.bodies (describes : Describes senders flow net) :
    net.worker.handled.filterMap Handled.jsonMsg = (flow.taken.map Prod.snd).filter (· ≠ []) := by
  have processed := congrArg (List.map Prod.snd) describes.processed
  rw [List.map_map, ← List.filterMap_eq_map] at processed
  rw [describes.handled, List.filterMap_map, List.filter_map]
  exact processed

theorem resends_step (describes : Describes senders flow net) {action : Action ι} (uses : Uses decode net action)
    (resends : Resends decode before net) : Resends decode before (step senders net action) := by
  cases action with
  | send i message => exact resends
  | front i =>
    simp only [step]
    split <;> exact resends
  | back =>
    simp only [step]
    split <;> exact resends
  | work host => exact resends_work describes uses resends

/-- What a run keeps. -/
def Carries (senders : Senders ι) (decode : Bytes → Except LuaError Value) (before : List (Bytes × Bytes))
    (net : Network ι) : Prop :=
  (∃ flow, Describes senders flow net) ∧ Resends decode before net

theorem carries_step (carries : Carries senders decode before net) {action : Action ι} (uses : Uses decode net action) :
    Carries senders decode before (step senders net action) := by
  obtain ⟨⟨flow, describes⟩, resends⟩ := carries
  exact ⟨described_step ⟨flow, describes⟩ action, resends_step describes uses resends⟩

theorem carries_run (senders : Senders ι) (world : CompressImage.World) {actions : List (Action ι)}
    (uses : Along (step senders) (Uses decode) (Network.start world) actions) :
    Carries senders decode world.sent (run (step senders) (Network.start world) actions) := by
  have start : Carries senders decode world.sent (Network.start world : Network ι) :=
    ⟨⟨_, describes_start senders world⟩, by simp [Resends, Network.start, forSecond]⟩
  exact @run_keeps _ _ (step senders) (Uses decode) (Carries senders decode world.sent)
    (fun _ _ carries uses => carries_step carries uses) _ _ start uses

/-- In every run there is an order in which the worker has taken the first messages of every sender. It has
handled them in this order, and sent on those of them about a thumbnail. -/
theorem resent_in_order (senders : Senders ι) (decode : Bytes → Except LuaError Value) (world : CompressImage.World)
    (actions : List (Action ι)) (uses : Along (step senders) (Uses decode) (Network.start world) actions) :
    let net := run (step senders) (Network.start world) actions
    ∃ taken : List (ι × Bytes), (∀ i, ofSender taken i <+: net.sent i) ∧
      net.worker.handled.filterMap Handled.jsonMsg = (taken.map Prod.snd).filter (· ≠ []) ∧
      net.worker.world.sent = world.sent ++ forSecond decode (taken.map Prod.snd) := by
  intro net
  obtain ⟨⟨flow, describes⟩, resends⟩ := carries_run senders world uses
  refine ⟨flow.taken, fun i => ?_, describes.bodies, ?_⟩
  · obtain ⟨queue, -, sent⟩ := describes.sent i
    refine ⟨ofSender flow.waiting i ++ queue, ?_⟩
    rw [sent, List.filter_append, List.map_append, List.append_assoc]
    rfl
  · rw [resends, describes.bodies, forSecond_present]

/-- Once the senders are quiet and the others are fair, there is a time from which on every message about
a thumbnail has gone on. -/
theorem every_thumbnail_resent [Finite ι] (senders : Senders ι) (decode : Bytes → Except LuaError Value)
    (world : CompressImage.World) (actions : List (Action ι))
    (uses : Along (step senders) (Uses decode) (Network.start world) actions) {schedule : ℕ → Action ι}
    (quiet : ∀ time i message, schedule time ≠ .send i message) (fair : Fair Kind.Is schedule)
    (used : ∀ time, Uses decode
      (states (step senders) (run (step senders) (Network.start world) actions) schedule time) (schedule time)) :
    ∃ rest, ∀ time, rest ≤ time →
      let net := states (step senders) (run (step senders) (Network.start world) actions) schedule time
      ∃ order : List (ι × Bytes), (∀ i, ofSender order i = net.sent i) ∧
        net.worker.world.sent = world.sent ++ forSecond decode (order.map Prod.snd) := by
  have carries := carries_run senders world uses
  obtain ⟨rest, flow, describes, nothing, same⟩ := comes_at_rest carries.1 quiet fair
  have kept := @states_keeps _ _ (step senders) _ schedule (Carries senders decode world.sent) (Uses decode) carries
    (fun _ _ carries uses => carries_step carries uses) used rest
  refine ⟨rest, fun time later => ?_⟩
  rw [same time later]
  refine ⟨flow.taken, fun i => (describes.all_taken nothing i).symm, ?_⟩
  rw [kept.2, describes.bodies, forSecond_present]

theorem thumbnail_in_order :
    let net := run (step lone) (Network.start oneThumbnail) [.send () ⟨bytes "{}", by decide⟩, .front (), .work shortening]
    ∃ taken : List (Unit × Bytes), (∀ i, ofSender taken i <+: net.sent i) ∧
      net.worker.handled.filterMap Handled.jsonMsg = (taken.map Prod.snd).filter (· ≠ []) ∧
      net.worker.world.sent = oneThumbnail.sent ++ forSecond shortening.decode (taken.map Prod.snd) :=
  resent_in_order lone shortening.decode oneThumbnail _ ⟨trivial, trivial, ⟨rfl, fun _ => rfl⟩, trivial⟩

/-- The broker and the worker in turn. -/
def rounds (time : ℕ) : Action Unit :=
  match time % 3 with
  | 0 => .front ()
  | 1 => .work shortening
  | _ => .back

theorem rounds_fair : Fair Kind.Is rounds := by
  have turn (place time : ℕ) (small : place < 3) : time ≤ 3 * time + place ∧ (3 * time + place) % 3 = place := by omega
  rintro (_ | _ | _) time
  · refine ⟨3 * time + 0, by omega, ?_⟩
    rw [rounds, (turn 0 time (by omega)).2]
    rfl
  · refine ⟨3 * time + 2, by omega, ?_⟩
    rw [rounds, (turn 2 time (by omega)).2]
    rfl
  · refine ⟨3 * time + 1, by omega, shortening, ?_⟩
    rw [rounds, (turn 1 time (by omega)).2]
    rfl

theorem thumbnail_resent : ∃ rest, ∀ time, rest ≤ time →
    let net := states (step lone) (run (step lone) (Network.start oneThumbnail) [.send () ⟨bytes "{}", by decide⟩]) rounds time
    ∃ order : List (Unit × Bytes), (∀ i, ofSender order i = net.sent i) ∧
      net.worker.world.sent = oneThumbnail.sent ++ forSecond shortening.decode (order.map Prod.snd) := by
  refine every_thumbnail_resent lone shortening.decode oneThumbnail [.send () ⟨bytes "{}", by decide⟩] ⟨trivial, trivial⟩
    ?_ rounds_fair ?_
  · intro time i message
    unfold rounds
    split <;> simp
  · intro time
    generalize states (step lone) _ rounds time = net
    unfold rounds
    split
    next => trivial
    next => exact ⟨rfl, fun _ => rfl⟩
    next => trivial

end MessageRouter
end ImageServer
