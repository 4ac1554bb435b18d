import ImageServer.Proofs.ImageSystemLiveness
import ImageServer.Proofs.Resending

/-! What the second server hears of the thumbnails. Nothing is announced that is not there, nothing that is
there is forgotten, and once the system is at rest the second server has heard of exactly the thumbnails
that there are. -/

namespace ImageServer.ImageSystem
open CompressImage MessageRouter Multipart Runs

section Texts
variable {json : Json} {server : ImageProcessor} {text target : Bytes}

theorem AboutThumbnail.goesOn (about : AboutThumbnail json server text target) : resent json.decode text = true := by
  obtain ⟨present, -⟩ := Known.plain (Or.inr ⟨target, about⟩)
  obtain ⟨request, files, encoded, -⟩ := about
  obtain ⟨value, decoded, carries⟩ := json.carries encoded
  obtain ⟨source, name⟩ := thumbnailMessage_names server request files
  obtain ⟨fields, rfl⟩ := carries.table
  have msgType : field fields "msgType" = some (.number (.fin 2)) := Except.ok.inj carries.msgType
  have named : field fields "sourceImageName" = some (.string (request.stem ++ request.suffix)) :=
    (Except.ok.inj carries.sourceImageName).trans (congrArg (Option.map Value.string) source)
  have targeted : field fields "targetImageName" = some (.string request.requestImageName) :=
    (Except.ok.inj carries.targetImageName).trans (congrArg (Option.map Value.string) name)
  have isTwo : Value.isNumber (field fields "msgType") 2 = true := by
    rw [msgType]
    decide
  have path : (Value.removePathSimbolAtHead (field fields "targetImageName") >>= Value.concatenated) =
      .ok (removePathSimbolAtHead request.requestImageName) := by
    rw [targeted]
    rfl
  have nonempty : text.isEmpty = false := by simpa using present
  simp [resent, decoded, nonempty, isTwo, named, path, Value.truthy, Except.isOk, Except.toBool]

theorem AboutThumbnail.announced (about : AboutThumbnail json server text target) {host : CompressImage.Host}
    (same : host.decode = json.decode) (socket : host.socket text = true) (world : CompressImage.World) :
    (onMessageArrive host text world).2.sent = world.sent ++ [(resendServerUrl, text)] := by
  rw [onMessageArrive_sent host (Known.plain (Or.inr ⟨target, about⟩)).1 socket, same, forSecond, List.filter_singleton,
    about.goesOn]
  rfl

end Texts

section Invariant
variable {κ ι : Type} (senders : Senders ι) (json : Json) (server : ImageProcessor) (before later : List (Bytes × Bytes))

/-- What the second server has heard since, and what it will hear. -/
structure Heard (system : System κ ι) : Prop where
  sent : system.net.worker.world.sent = before ++ later
  told : ∀ path, server.thumbnailImagesRoot <+: path → (system.disk path).isSome → ∃ text,
    AboutThumbnail json server text path ∧ (UnderWay senders system text ∨ (resendServerUrl, text) ∈ later)
  heard : ∀ message ∈ later, ∃ text path, message = (resendServerUrl, text) ∧ AboutThumbnail json server text path ∧
    (system.disk path).isSome
  waiting : ∀ text path, AboutThumbnail json server text path → UnderWay senders system text → (system.disk path).isSome

/-- Careful, and the sockets of the worker open. -/
def Announcing (optimized : Bytes → Bytes) (system : System κ ι) (action : Action κ ι) : Prop :=
  Careful server json optimized system action ∧
    ∀ host, action = .pass (.work host) → ∀ message, host.socket message = true

end Invariant

section Steps
variable {κ ι : Type} [DecidableEq κ] [DecidableEq ι] {senders : Senders ι} {json : Json} {server : ImageProcessor}
  {stored : Image → Bytes} {optimized : Bytes → Bytes} {uploads : Disk} {before later : List (Bytes × Bytes)}
  {system : System κ ι}

omit [DecidableEq κ] [DecidableEq ι] in
/-- A step that loses no file and no text about a thumbnail, and says what is new. -/
theorem Heard.grows {after : System κ ι} (heard : Heard senders json server before later system)
    (sent : after.net.worker.world.sent = system.net.worker.world.sent)
    (lasting : ∀ path, (system.disk path).isSome → (after.disk path).isSome)
    (keeps : ∀ text path, AboutThumbnail json server text path → UnderWay senders system text → UnderWay senders after text)
    (new : ∀ path, (after.disk path).isSome → (system.disk path).isSome ∨
      ∃ text, AboutThumbnail json server text path ∧ UnderWay senders after text)
    (waiting : ∀ text path, AboutThumbnail json server text path → UnderWay senders after text →
      UnderWay senders system text ∨ (after.disk path).isSome) : Heard senders json server before later after where
  sent := sent.trans heard.sent
  told path under there := by
    rcases new path there with earlier | ⟨text, about, way⟩
    · obtain ⟨text, about, either⟩ := heard.told path under earlier
      exact ⟨text, about, either.imp_left (keeps text path about)⟩
    · exact ⟨text, about, Or.inl way⟩
  heard message member := by
    obtain ⟨text, path, same, about, there⟩ := heard.heard message member
    exact ⟨text, path, same, about, lasting path there⟩
  waiting text path about way := by
    rcases waiting text path about way with earlier | there
    · exact lasting path (heard.waiting text path about earlier)
    · exact there

omit [DecidableEq κ] [DecidableEq ι] in
theorem Heard.moves {after : System κ ι} (heard : Heard senders json server before later system)
    (world : after.net.worker.world = system.net.worker.world)
    (way : ∀ text, UnderWay senders after text ↔ UnderWay senders system text) :
    Heard senders json server before later after := by
  have disk : after.disk = system.disk := congrArg CompressImage.World.disk world
  refine heard.grows (congrArg CompressImage.World.sent world) ?_ (fun text _ _ => (way text).mpr) ?_
    fun text _ _ under => Or.inl ((way text).mp under)
  · intro path there
    rwa [disk]
  · intro path there
    exact Or.inl (disk ▸ there)

theorem heard_save (heard : Heard senders json server before later system)
    (sound : Sound senders server stored json optimized uploads system) (process : κ) :
    Heard senders json server before later (step senders server stored system (.save process)) := by
  have way (text : Bytes) := @underWay_save κ ι _ _ senders text server stored system process
  cases stage : system.process process with
  | idle => simpa only [step, stage] using heard
  | saved texts => simpa only [step, stage] using heard
  | begun looked after texts =>
    obtain ⟨-, files, told⟩ := sound.begun process looked after texts stage
    simp only [step, stage, Stage.begun.injEq] at way ⊢
    have waits (text path : Bytes) (about : AboutThumbnail json server text path)
        (under : UnderWay senders ⟨Function.update system.process process (.saved texts),
          withDisk system.net (written stored looked after system.disk)⟩ text) :
        UnderWay senders system text ∨ (written stored looked after system.disk path).isSome := by
      rcases (way text).mp under with earlier | ⟨_, _, _, ⟨rfl, rfl, rfl⟩, member⟩
      · exact Or.inl earlier
      · obtain ⟨changed, there⟩ := told text member path about
        exact Or.inr (by rwa [written, if_neg changed, Option.isSome_map])
    have keeps (text path : Bytes) (_ : AboutThumbnail json server text path) (under : UnderWay senders system text) :=
      (way text).mpr (Or.inl under)
    rcases files with rfl | ⟨old, target, image, rfl, rfl, -, text, among, about⟩
    · have same := written_same stored after system.disk
      refine heard.grows rfl (fun path there => ?_) keeps (fun path there => Or.inl ?_) waits
      · change (written stored after after system.disk path).isSome
        rwa [same]
      · change (written stored after after system.disk path).isSome at there
        rwa [same] at there
    · have changed := written_picture stored old system.disk target image
      refine heard.grows rfl (fun path there => ?_) keeps (fun path there => ?_) waits
      · change (written stored (seen old) _ system.disk path).isSome
        rw [changed]
        exact lasting_update system.disk target (stored image) path there
      · change (written stored (seen old) _ system.disk path).isSome at there
        by_cases here : path = target
        · exact Or.inr ⟨text, here ▸ about, (way text).mpr (Or.inr ⟨_, _, _, ⟨rfl, rfl, rfl⟩, among⟩)⟩
        · rw [changed, Function.update_of_ne here] at there
          exact Or.inl there

/-- An image that is replaced by what the optimizer makes of it is still there. -/
theorem reduced_isSome {before after : Disk} (reduced : Reduced optimized before after) (path : Bytes) :
    (after path).isSome ↔ (before path).isSome := by
  obtain ⟨times, same⟩ := reduced path
  rw [same, Option.isSome_map]

theorem heard_work (heard : Heard senders json server before later system)
    (sound : Sound senders server stored json optimized uploads system)
    (shared : server.thumbnailImagesRoot = appendPathSimbol2Tail thumbnailImaegRoot) (host : CompressImage.Host)
    (announcing : Announcing json server optimized system (.pass (.work host))) :
    ∃ after, Heard senders json server before after (step senders server stored system (.pass (.work host))) := by
  obtain ⟨⟨same, decode, complete⟩, sockets⟩ := announcing
  have socket := sockets host rfl
  obtain ⟨flow, describes⟩ := sound.described
  rcases work_takes describes host with unchanged | ⟨i, body, rest, takes⟩
  · exact ⟨later, by simpa only [step, unchanged] using heard⟩
  simp only [step]
  generalize MessageRouter.step senders system.net (.work host) = net at takes
  have way (text : Bytes) := @underWay_takes κ ι senders text system host net i body rest takes
  have taken : UnderWay senders system body := (way body).mpr (Or.inr rfl)
  have world := takes.world (sound.known body taken).plain.1
  rcases sound.known body taken with request | ⟨target, about⟩
  · -- a message about a request changes nothing, and nobody is told by it
    rw [request.arrives decode] at world
    have disk : (⟨system.process, net⟩ : System κ ι).disk = system.disk := congrArg CompressImage.World.disk world
    refine ⟨later, heard.grows (congrArg CompressImage.World.sent world) (fun path there => disk ▸ there) ?_
      (fun path there => Or.inl (disk ▸ there)) fun text _ _ under => Or.inl ((way text).mpr (Or.inl under))⟩
    intro text path thumbnail under
    rcases (way text).mp under with still | rfl
    · exact still
    · exact absurd request thumbnail.not_request
  have whole : host.outcome.Whole := by
    rintro content truncated
    cases complete.symm.trans truncated
  have files (path : Bytes) : (net.worker.world.disk path).isSome ↔ (system.disk path).isSome := by
    have reduced := (compressImage_reduces host whole (about.operand shared) sound.clean).2
    rw [world, about.arrives shared decode]
    exact reduced_isSome reduced path
  have sent : net.worker.world.sent = before ++ (later ++ [(resendServerUrl, body)]) := by
    rw [world, about.announced decode (socket body), heard.sent, List.append_assoc]
  refine ⟨later ++ [(resendServerUrl, body)], sent, ?_, ?_, ?_⟩
  · intro path under there
    obtain ⟨text, thumbnail, either⟩ := heard.told path under ((files path).mp there)
    refine ⟨text, thumbnail, ?_⟩
    rcases either with under | earlier
    · rcases (way text).mp under with still | rfl
      · exact Or.inl still
      · exact Or.inr (by simp)
    · exact Or.inr (List.mem_append_left _ earlier)
  · intro message member
    rcases List.mem_append.mp member with earlier | here
    · obtain ⟨text, path, said, thumbnail, there⟩ := heard.heard message earlier
      exact ⟨text, path, said, thumbnail, (files path).mpr there⟩
    · exact ⟨body, target, List.mem_singleton.mp here, about, (files target).mpr (heard.waiting body target about taken)⟩
  · intro text path thumbnail under
    exact (files path).mpr (heard.waiting text path thumbnail ((way text).mpr (Or.inl under)))

theorem heard_step (heard : Heard senders json server before later system)
    (sound : Sound senders server stored json optimized uploads system)
    (shared : server.thumbnailImagesRoot = appendPathSimbol2Tail thumbnailImaegRoot) (action : Action κ ι)
    (announcing : Announcing json server optimized system action) :
    ∃ after, Heard senders json server before after (step senders server stored system action) := by
  cases action with
  | request process host oriRequestPath =>
    refine ⟨later, heard.moves ?_ fun text => underWay_request process host oriRequestPath⟩
    simp only [step]
    split <;> rfl
  | save process => exact ⟨later, heard_save heard sound process⟩
  | post process sender =>
    refine ⟨later, heard.moves ?_ fun text => underWay_post process sender⟩
    simp only [step]
    split <;> rfl
  | pass action =>
    obtain ⟨flow, describes⟩ := sound.described
    cases action with
    | send sender message => exact announcing.1.elim
    | front i =>
      refine ⟨later, heard.moves ?_ fun text => underWay_front describes i⟩
      simp only [step, MessageRouter.step]
      split <;> rfl
    | back =>
      refine ⟨later, heard.moves ?_ fun text => underWay_back⟩
      simp only [step, MessageRouter.step]
      split <;> rfl
    | work host => exact heard_work heard sound shared host announcing

/-- What a run keeps. -/
def Announces (senders : Senders ι) (json : Json) (server : ImageProcessor) (stored : Image → Bytes)
    (optimized : Bytes → Bytes) (uploads : Disk) (before : List (Bytes × Bytes)) (system : System κ ι) : Prop :=
  Sound senders server stored json optimized uploads system ∧ ∃ later, Heard senders json server before later system

theorem announces_step (announces : Announces senders json server stored optimized uploads before system)
    (shared : server.thumbnailImagesRoot = appendPathSimbol2Tail thumbnailImaegRoot) (flag : server.sendMessageFlag = true)
    (action : Action κ ι) (announcing : Announcing json server optimized system action) :
    Announces senders json server stored optimized uploads before (step senders server stored system action) := by
  obtain ⟨sound, later, heard⟩ := announces
  exact ⟨sound_step sound shared flag action announcing.1, heard_step heard sound shared action announcing⟩

omit [DecidableEq κ] [DecidableEq ι] in
theorem heard_start (world : CompressImage.World)
    (empty : ∀ path, server.thumbnailImagesRoot <+: path → world.disk path = none) :
    Heard senders json server world.sent [] (System.start world : System κ ι) where
  sent := (List.append_nil _).symm
  told := by
    intro path under there
    rw [show (System.start world : System κ ι).disk path = none from empty path under] at there
    cases there
  heard := by simp
  waiting := by
    rintro text path - (⟨process, unsent⟩ | ⟨i, queued⟩ | ⟨i, waiting⟩)
    · cases unsent
    · cases queued
    · cases waiting

theorem announces_run (shared : server.thumbnailImagesRoot = appendPathSimbol2Tail thumbnailImaegRoot)
    (flag : server.sendMessageFlag = true) {world : CompressImage.World} (clean : Clean world.disk)
    (empty : ∀ path, server.thumbnailImagesRoot <+: path → world.disk path = none) {actions : List (Action κ ι)}
    (announcing : Along (step senders server stored) (Announcing json server optimized) (.start world) actions) :
    Announces senders json server stored optimized world.disk world.sent
      (run (step senders server stored) (.start world) actions) := by
  refine run_keeps ?_ ⟨sound_start world clean empty, [], heard_start world empty⟩ announcing
  intro system action announces allowed
  exact announces_step announces shared flag action allowed

end Steps

variable {κ ι : Type} [DecidableEq κ] [DecidableEq ι]

end ImageServer.ImageSystem
