import ImageServer.Proofs.MessageIntegrity
import ImageServer.Proofs.WorkerStatus
import Mathlib.Logic.Function.Iterate

/-! What the worker does to a disk over whole runs of the message system. Where the optimizer leaves
whole files or none, no file comes or goes, and an image is only ever replaced by what the optimizer
makes of it. -/

namespace ImageServer
namespace CompressImage

/-- No optimizer has left anything. -/
def Clean (disk : Disk) : Prop := ∀ path, disk (tempFile path) = none

/-- A whole output or none. -/
def Outcome.Whole (outcome : Outcome) : Prop := ∀ content, outcome.output ≠ .truncated content

/-- A path that both command lines take for a file. -/
def Operand (path : Bytes) : Prop := (39 : UInt8) ∉ path ∧ path.head? ≠ some 45

/-- Every file is there as before, and says what the optimizer makes of it, so many times over. -/
def Reduced (optimized : Bytes → Bytes) (before after : Disk) : Prop :=
  ∀ path, ∃ times, after path = (before path).map optimized^[times]

theorem Reduced.refl (optimized : Bytes → Bytes) (disk : Disk) : Reduced optimized disk disk :=
  fun path => ⟨0, by simp⟩

theorem Reduced.trans {optimized : Bytes → Bytes} {a b c : Disk} (first : Reduced optimized a b)
    (second : Reduced optimized b c) : Reduced optimized a c := by
  intro path
  obtain ⟨times, reduced⟩ := first path
  obtain ⟨more, again⟩ := second path
  refine ⟨more + times, ?_⟩
  rw [again, reduced, Option.map_map, Function.iterate_add]

/-- Nothing happens, or the image and its temporary file are all that changes. -/
theorem compressImage_disk (host : Host) (whole : host.outcome.Whole) {path : Bytes} (operand : Operand path)
    {world : World} (clean : Clean world.disk) :
    (compressImage host path world).2.disk = world.disk ∨ ∃ original, world.disk path = some original ∧
      (compressImage host path world).2.disk = Function.update world.disk path (some (host.optimized original)) := by
  by_cases zero : (0 : UInt8) ∈ path
  · exact Or.inl (compressImage_zero host operand.1 zero world)
  rw [compressImage_run host operand.1 zero]
  cases present : world.disk path with
  | none => exact Or.inl rfl
  | some original =>
    simp only [Option.isSome_some, if_true, optimize, present]
    have option : ¬ ((tempFile path).head? = some 45 ∧ path.head? = some 45) := fun options => operand.2 options.2
    cases output : host.outcome.output with
    | truncated content => exact absurd output (whole content)
    | nothing =>
      left
      simp only [clean path, Option.isSome_none, Bool.false_eq_true, if_false]
    | complete =>
      right
      have removed : Function.update world.disk (tempFile path) none = world.disk :=
        Function.update_eq_self_iff.mpr (clean path).symm
      refine ⟨original, rfl, ?_⟩
      simp only [Function.update_self, Option.isSome_some, if_true, moveFile, if_neg option, Function.update_idem, removed]

theorem compressImage_reduces (host : Host) (whole : host.outcome.Whole) {path : Bytes} (operand : Operand path)
    {world : World} (clean : Clean world.disk) :
    Clean (compressImage host path world).2.disk ∧
      Reduced host.optimized world.disk (compressImage host path world).2.disk := by
  rcases compressImage_disk host whole operand clean with same | ⟨original, present, replaced⟩
  · rw [same]
    exact ⟨clean, .refl _ _⟩
  rw [replaced]
  constructor
  · intro other
    have apart : tempFile other ≠ path := by
      rintro rfl
      rw [clean other] at present
      cases present
    rw [Function.update_of_ne apart, clean other]
  · intro other
    by_cases here : other = path
    · subst here
      exact ⟨1, by rw [Function.update_self, present]; rfl⟩
    · exact ⟨0, by rw [Function.update_of_ne here]; simp⟩

/-- A message compresses one file, or leaves the disk alone. -/
theorem onMessageArrive_disk (host : Host) (jsonMsg : Bytes) (world : World) :
    (onMessageArrive host jsonMsg world).2.disk = world.disk ∨ ∃ fields path, host.decode jsonMsg = .ok (.table fields) ∧
      path ∈ compressedPaths fields ∧
      (onMessageArrive host jsonMsg world).2.disk = (compressImage host path world).2.disk := by
  cases decoded : host.decode jsonMsg with
  | error raised => exact Or.inl (by simp [onMessageArrive, Exec.bind_run, decoded])
  | ok msg =>
    cases msg with
    | null | number value => exact Or.inl (by simp [onMessageArrive, Exec.bind_run, decoded, Value.truthy, Value.index])
    | boolean flag =>
      left
      cases flag <;> simp [onMessageArrive, Exec.bind_run, decoded, Value.truthy, Value.index]
    | string text => exact Or.inl (by simp [onMessageArrive, Exec.bind_run, decoded, Value.truthy, Value.index])
    | table fields =>
      rcases Bool.eq_false_or_eq_true (Value.truthy (field fields "sourceImageName")) with named | nameless
      · rw [onMessageArrive_run host jsonMsg world decoded named]
        split
        next two =>
          split
          next => exact Or.inl rfl
          next name path =>
            refine Or.inr ⟨fields, _, rfl, ?_, (sendMessage_keeps host jsonMsg resendServerUrl _).1⟩
            simp [compressedPaths, two, path]
        next two =>
          split
          next three =>
            split
            next first second => exact Or.inr ⟨fields, _, rfl, by simp [compressedPaths, two, three, first, second], rfl⟩
            next => exact Or.inl rfl
            next => exact Or.inl rfl
          next => split <;> exact Or.inl rfl
      · rw [onMessageArrive_nameless host jsonMsg world decoded nameless]
        exact Or.inl rfl

end CompressImage

namespace MessageRouter
open CompressImage Multipart Runs

variable {ι : Type} [DecidableEq ι]

/-- If the worker takes a message, it has the one optimizer, which leaves whole files or none, and what
the message makes it compress is a path to both command lines. -/
def Careful (optimized : Bytes → Bytes) (net : Network ι) : Action ι → Prop
  | .work host => host.optimized = optimized ∧ host.outcome.Whole ∧ ∀ address body rest fields,
      net.toWorker.sent = [address, body] :: rest → host.decode body = .ok (.table fields) →
      ∀ path ∈ compressedPaths fields, Operand path
  | _ => True

/-- A turn of the worker over the message that is next. An empty one is not handled. -/
structure Takes (senders : Senders ι) (host : CompressImage.Host) (net after : Network ι) (i : ι) (body : Bytes)
    (rest : List (List Bytes)) : Prop where
  waiting : net.toWorker.sent = [senders.identity i, body] :: rest
  left : after.toWorker.sent = rest
  toBroker : after.toBroker = net.toBroker
  empty : body = [] → after.worker = net.worker
  world : body ≠ [] → after.worker.world = (onMessageArrive host body net.worker.world).2
  handled : body ≠ [] → after.worker.handled = net.worker.handled ++
    [⟨some (senders.identity i), some body, statusOf (onMessageArrive host body net.worker.world).1⟩]

theorem work_takes {senders : Senders ι} {flow : Flow ι} {net : Network ι} (describes : Describes senders flow net)
    (host : CompressImage.Host) :
    step senders net (.work host) = net ∨ ∃ i body rest, Takes senders host net (step senders net (.work host)) i body rest := by
  cases waiting : flow.waiting with
  | nil => exact Or.inl (by simp only [step, describes.running, describes.toWorker, waiting, List.map_nil])
  | cons message rest =>
    obtain ⟨i, body⟩ := message
    obtain ⟨read, back⟩ := identity_back senders i
    refine Or.inr ⟨i, body, rest.map fun message => [senders.identity message.1, message.2], ?_⟩
    by_cases empty : body = []
    · subst body
      constructor <;> simp [step, describes.running, describes.toWorker, waiting, turn_empty host read]
    · have text := text_read (@Describes.waiting_text _ _ _ _ _ describes i body (by simp [waiting]))
      constructor <;>
        simp [step, describes.running, describes.toWorker, waiting, turn_answered host read back text empty, empty]

/-- In every run of the message system whose turns are careful, from a disk without leftovers: nothing is
left over, no file comes or goes, and each image is what the optimizer makes of it, so many times over. -/
theorem images_only_reduced (senders : Senders ι) (optimized : Bytes → Bytes) (world : CompressImage.World)
    (clean : Clean world.disk) (actions : List (Action ι))
    (careful : Along (step senders) (Careful optimized) (Network.start world) actions) :
    let after := (run (step senders) (Network.start world) actions).worker.world.disk
    Clean after ∧ Reduced optimized world.disk after := by
  have start : (∃ flow, Describes senders flow (Network.start world : Network ι)) ∧ Clean world.disk ∧
      Reduced optimized world.disk world.disk := ⟨⟨_, describes_start senders world⟩, clean, .refl _ _⟩
  refine (@run_keeps _ _ _ _ (fun net => (∃ flow, Describes senders flow net) ∧ Clean net.worker.world.disk ∧
    Reduced optimized world.disk net.worker.world.disk) ?_ _ _ start careful).2
  rintro net action ⟨⟨flow, describes⟩, clean, reduced⟩ careful
  cases action with
  | send i message => exact ⟨⟨flow, describes_send describes i message⟩, clean, reduced⟩
  | front i =>
    refine ⟨describes_front describes i, ?_⟩
    simp only [step]
    split <;> exact ⟨clean, reduced⟩
  | back =>
    refine ⟨describes_back describes, ?_⟩
    simp only [step]
    split <;> exact ⟨clean, reduced⟩
  | work host =>
    refine ⟨describes_work describes host, ?_⟩
    obtain ⟨same, whole, operands⟩ := careful
    rcases work_takes describes host with idle | ⟨i, body, rest, takes⟩
    · rw [idle]
      exact ⟨clean, reduced⟩
    by_cases empty : body = []
    · rw [takes.empty empty]
      exact ⟨clean, reduced⟩
    rw [takes.world empty]
    rcases onMessageArrive_disk host body net.worker.world with kept | ⟨fields, path, decoded, compressed, disk⟩
    · rw [kept]
      exact ⟨clean, reduced⟩
    · obtain ⟨cleaned, more⟩ := compressImage_reduces host whole
        (operands _ body rest fields takes.waiting decoded path compressed) clean
      rw [disk]
      rw [same] at more
      exact ⟨cleaned, reduced.trans more⟩

def lone : Senders Unit where
  identity _ := identityOf 0 0
  generated _ := ⟨0, 0, rfl⟩
  distinct _ _ _ := rfl

/-- An optimizer that keeps the first two bytes of a thumbnail. -/
def shortening : CompressImage.Host :=
  .running (List.take 2) ⟨true, .complete⟩ fun _ => .ok (.table (message 2 "targetImageName"))

def oneThumbnail : CompressImage.World where
  disk path := if path = bytes "/www/images/public/thumbnail/p/a.jpg" then some (bytes "JPEG") else none
  compressed := []
  sent := []

theorem oneThumbnail_clean : Clean oneThumbnail.disk := by
  intro path
  have other : tempFile path ≠ bytes "/www/images/public/thumbnail/p/a.jpg" := by
    intro same
    have ends : bytes ".comps.jpg" <:+ bytes "/www/images/public/thumbnail/p/a.jpg" := ⟨path, same⟩
    revert ends
    decide +kernel
  simp only [oneThumbnail, if_neg other]

theorem thumbnail_only_reduced :
    let after := (run (step lone) (Network.start oneThumbnail) [.send () ⟨bytes "{}", by decide⟩, .front (),
      .work shortening]).worker.world.disk
    Clean after ∧ Reduced (List.take 2) oneThumbnail.disk after := by
  refine images_only_reduced lone (List.take 2) oneThumbnail oneThumbnail_clean _ ⟨trivial, trivial, ⟨rfl, ?_, ?_⟩, trivial⟩
  · rintro content ⟨⟩
  · rintro address body rest fields - ⟨⟩ path member
    have paths : compressedPaths (message 2 "targetImageName") = [bytes "/www/images/public/thumbnail/p/a.jpg"] := by
      decide +kernel
    rw [paths, List.mem_singleton] at member
    rw [member]
    exact ⟨by simp [bytes], by simp [bytes]⟩

end MessageRouter
end ImageServer
