import ImageServer.ImageSystem
import ImageServer.Proofs.MessageLiveness
import ImageServer.Proofs.ServedCalls

/-! The whole system keeps its pictures: an upload is never touched, and a thumbnail is made of its own
source and then only reduced, however the steps of the processes, the broker and the worker fall. -/

namespace ImageServer
namespace ImageSystem
open CompressImage MessageRouter Multipart Runs

/-- The JSON library, which gives every message back to the worker as it was. -/
structure Json where
  encode : Message → Except LuaError Bytes
  decode : Bytes → Except LuaError Value
  carries : ∀ {message text}, encode message = .ok text → ∃ value, decode text = .ok value ∧ Carries message value
  text : ∀ {message text}, encode message = .ok text → text ≠ [] ∧ text.head? ≠ some 0

section Texts
variable (json : Json) (server : ImageProcessor)

def AboutRequest (text : Bytes) : Prop := ∃ oriRequestPath, json.encode (requestMessage oriRequestPath) = .ok text

/-- A message about a thumbnail with a name that reaches the worker as it is. -/
def AboutThumbnail (text target : Bytes) : Prop :=
  ∃ (request : SizedRequest) (files : Files), json.encode (thumbnailMessage server (request.info server files)) = .ok text ∧
    target = request.targetImageName server ∧ (39 : UInt8) ∉ target ∧ (0 : UInt8) ∉ target ∧
    request.requestImageName.head? ≠ some slash

def Known (text : Bytes) : Prop := AboutRequest json text ∨ ∃ target, AboutThumbnail json server text target

variable {json server} {text : Bytes}

theorem Known.plain (known : Known json server text) : text ≠ [] ∧ text.head? ≠ some 0 := by
  rcases known with ⟨oriRequestPath, encoded⟩ | ⟨target, request, files, encoded, -⟩
  · exact json.text encoded
  · exact json.text encoded

/-- No text is about a request and about a thumbnail. -/
theorem AboutThumbnail.not_request {target : Bytes} (about : AboutThumbnail json server text target) :
    ¬ AboutRequest json text := by
  rintro ⟨oriRequestPath, encoded⟩
  obtain ⟨request, files, again, -⟩ := about
  obtain ⟨value, decoded, carries⟩ := json.carries encoded
  obtain ⟨other, decoded', carries'⟩ := json.carries again
  obtain rfl := Except.ok.inj (decoded.symm.trans decoded')
  have name := carries.sourceImageName.symm.trans carries'.sourceImageName
  rw [(thumbnailMessage_names server request files).1] at name
  cases name

/-- A text is about one thumbnail. -/
theorem AboutThumbnail.unique {first second : Bytes} (about : AboutThumbnail json server text first)
    (again : AboutThumbnail json server text second) : first = second := by
  obtain ⟨request, files, encoded, rfl, -⟩ := about
  obtain ⟨other, files', encoded', rfl, -⟩ := again
  obtain ⟨value, decoded, carries⟩ := json.carries encoded
  obtain ⟨value', decoded', carries'⟩ := json.carries encoded'
  obtain rfl := Except.ok.inj (decoded.symm.trans decoded')
  have name := carries.targetImageName.symm.trans carries'.targetImageName
  rw [(thumbnailMessage_names server request files).2, (thumbnailMessage_names server other files').2] at name
  simp only [Option.map_some, Except.ok.injEq, Option.some.injEq, Value.string.injEq] at name
  rw [SizedRequest.targetImageName, SizedRequest.targetImageName, name]

/-- The worker takes such a text for the path of the thumbnail, if it has its folder below the same root. -/
theorem AboutThumbnail.arrives {target : Bytes} (about : AboutThumbnail json server text target)
    (shared : server.thumbnailImagesRoot = appendPathSimbol2Tail thumbnailImaegRoot) {host : CompressImage.Host}
    (same : host.decode = json.decode) (world : CompressImage.World) :
    (onMessageArrive host text world).2.disk = (compressImage host target world).2.disk := by
  obtain ⟨request, files, encoded, rfl, -, -, inFolder⟩ := about
  obtain ⟨value, decoded, carries⟩ := json.carries encoded
  obtain ⟨source, target⟩ := thumbnailMessage_names server request files
  rw [onMessageArrive_carried host (same ▸ decoded) carries rfl source target, removePathSimbolAtHead_other inFolder, ← shared]
  rfl

theorem AboutRequest.arrives (about : AboutRequest json text) {host : CompressImage.Host} (same : host.decode = json.decode)
    (world : CompressImage.World) : (onMessageArrive host text world).2 = world := by
  obtain ⟨oriRequestPath, encoded⟩ := about
  obtain ⟨value, decoded, carries⟩ := json.carries encoded
  rw [onMessageArrive_request host (same ▸ decoded) carries]

theorem AboutThumbnail.operand {target : Bytes} (about : AboutThumbnail json server text target)
    (shared : server.thumbnailImagesRoot = appendPathSimbol2Tail thumbnailImaegRoot) : Operand target := by
  obtain ⟨request, files, -, rfl, unquoted, -⟩ := about
  refine ⟨unquoted, ?_⟩
  have rooted : (appendPathSimbol2Tail thumbnailImaegRoot).head? = some slash := by decide
  rw [SizedRequest.targetImageName, shared, List.head?_append, rooted, Option.some_or]
  decide

end Texts

/-- Where a file changes and none goes, whatever was made stays made. -/
theorem lasting_update (disk : Disk) (target data : Bytes) :
    ∀ path, (disk path).isSome → (Function.update disk target (some data) path).isSome := by
  intro path there
  by_cases here : path = target
  · simp [here]
  · rwa [Function.update_of_ne here]

section Pictures
variable (server : ImageProcessor) (stored : Image → Bytes) (optimized : Bytes → Bytes)

/-- A thumbnail of a permitted size whose source is there, after so many runs of the optimizer. -/
def Made (disk : Disk) (path data : Bytes) (times : ℕ) : Prop :=
  ∃ (request : SizedRequest) (image : Image), path = request.targetImageName server ∧
    image.path = request.sourceImageName server ∧ (disk image.path).isSome ∧
    sizeStr (ImageProcessor.sizeNumber request.sizeStr1) (ImageProcessor.sizeNumber request.sizeStr2) ∈ server.permitedSizes ∧
    data = optimized^[times] (stored image)

variable {server stored optimized}

theorem Made.later {before after : Disk} {path data : Bytes} {times : ℕ} (made : Made server stored optimized before path data times)
    (lasting : ∀ path, (before path).isSome → (after path).isSome) : Made server stored optimized after path data times := by
  obtain ⟨request, image, target, source, there, rest⟩ := made
  exact ⟨request, image, target, source, lasting _ there, rest⟩

theorem Made.again {disk : Disk} {path data : Bytes} {times : ℕ} (made : Made server stored optimized disk path data times) :
    Made server stored optimized disk path (optimized data) (times + 1) := by
  obtain ⟨request, image, target, source, there, permitted, rfl⟩ := made
  exact ⟨request, image, target, source, there, permitted, (Function.iterate_succ_apply' optimized times _).symm⟩

/-- Five bytes from its end a thumbnail has a digit or a star, and what the optimizer leaves has a letter. -/
theorem target_ne_tempFile (request : SizedRequest) (path : Bytes) : request.targetImageName server ≠ tempFile path := by
  intro same
  obtain ⟨front, last, split⟩ := (List.eq_nil_or_concat request.sizeStr2).resolve_left request.size2.1
  have size : isDigit last = true ∨ last = 42 := request.size2.2 last (by simp [split])
  have shape : request.targetImageName server =
      server.thumbnailImagesRoot ++ (request.stem ++ 95 :: (request.sizeStr1 ++ 42 :: front)) ++ last :: request.suffix := by
    simp [SizedRequest.targetImageName, SizedRequest.requestImageName, SizedRequest.sizes, split]
  have left : tempFile path = path ++ bytes ".comp" ++ 115 :: bytes ".jpg" := by
    simp [tempFile, bytes]
  rw [shape, left] at same
  have ends := List.append_inj' same (by simp [request.four, bytes])
  obtain rfl : last = 115 := (List.cons.inj ends.2).1
  revert size
  decide

end Pictures

section Written
variable (stored : Image → Bytes)

theorem written_same (looked : Files) (disk : Disk) : written stored looked looked disk = disk := by
  funext path
  simp only [written, if_true]

/-- A picture is never what was on the disk before. -/
theorem fresh_picture (disk : Disk) (path : Bytes) (image : Image) : some (File.thumbnail image) ≠ seen disk path := by
  unfold seen
  cases disk path <;> simp

theorem written_picture (old disk : Disk) (target : Bytes) (image : Image) :
    written stored (seen old) (Function.update (seen old) target (some (.thumbnail image))) disk =
      Function.update disk target (some (stored image)) := by
  funext path
  by_cases here : path = target
  · subst here
    simp only [written, Function.update_self, if_neg (fresh_picture old path image), Option.map_some, content]
  · simp only [written, Function.update_of_ne here, if_true]

end Written

variable {κ ι : Type} [DecidableEq κ] [DecidableEq ι]

/-- What a process is about to send. -/
def Stage.unsent : Stage → List Bytes
  | .saved texts => texts
  | _ => []

/-- A text is between the sender of a process and the worker. -/
def Carried (senders : Senders ι) (net : Network ι) (text : Bytes) : Prop :=
  (∃ i, [text] ∈ net.toBroker i) ∨ ∃ i, [senders.identity i, text] ∈ net.toWorker.sent

/-- A text is between the process that sends it and the worker. -/
def UnderWay (senders : Senders ι) (system : System κ ι) (text : Bytes) : Prop :=
  (∃ process, text ∈ (system.process process).unsent) ∨ Carried senders system.net text

section UnderWay
variable {senders : Senders ι} {flow : Flow ι} {net : Network ι} {text : Bytes}

theorem unsent_kept {process : κ → Stage} {p : κ} {stage : Stage}
    (kept : text ∈ (process p).unsent → text ∈ stage.unsent) (unsent : ∃ q, text ∈ (process q).unsent) :
    ∃ q, text ∈ (Function.update process p stage q).unsent := by
  obtain ⟨q, member⟩ := unsent
  by_cases here : q = p
  · subst here
    exact ⟨q, by rw [Function.update_self]; exact kept member⟩
  · exact ⟨q, by rwa [Function.update_of_ne here]⟩

theorem unsent_from {process : κ → Stage} {p : κ} {stage : Stage}
    (unsent : ∃ q, text ∈ (Function.update process p stage q).unsent) :
    text ∈ stage.unsent ∨ ∃ q, text ∈ (process q).unsent := by
  obtain ⟨q, member⟩ := unsent
  by_cases here : q = p
  · subst here
    exact Or.inl (by rwa [Function.update_self] at member)
  · exact Or.inr ⟨q, by rwa [Function.update_of_ne here] at member⟩

theorem carried_posted (sender : ι) (other : Bytes) :
    Carried senders (posted net sender other) text ↔ text = other ∨ Carried senders net text := by
  unfold Carried posted
  constructor
  · rintro (⟨i, member⟩ | ⟨i, member⟩)
    · by_cases here : i = sender
      · subst here
        simp only [Function.update_self, List.mem_append, List.mem_singleton, List.cons.injEq, and_true] at member
        rcases member with earlier | same
        · exact Or.inr (Or.inl ⟨i, earlier⟩)
        · exact Or.inl same
      · simp only [Function.update_of_ne here] at member
        exact Or.inr (Or.inl ⟨i, member⟩)
    · exact Or.inr (Or.inr ⟨i, member⟩)
  · rintro (rfl | ⟨i, member⟩ | ⟨i, member⟩)
    · exact Or.inl ⟨sender, by simp⟩
    · refine Or.inl ⟨i, ?_⟩
      by_cases here : i = sender
      · subst here
        simp [member]
      · simpa [here] using member
    · exact Or.inr ⟨i, member⟩

theorem carried_front (describes : Describes senders flow net) (i : ι) :
    Carried senders (MessageRouter.step senders net (.front i)) text ↔ Carried senders net text := by
  obtain ⟨queue, queued, -⟩ := describes.sent i
  cases queue with
  | nil => simp only [MessageRouter.step, queued, List.map_nil]
  | cons body queue =>
    simp only [MessageRouter.step, queued, List.map_cons, relay_parts (List.cons_ne_nil _ _), describes.toWorker,
      List.nil_append, Carried]
    constructor
    · rintro (⟨j, member⟩ | ⟨j, member⟩)
      · refine Or.inl ⟨j, ?_⟩
        by_cases here : j = i
        · subst here
          rw [Function.update_self] at member
          rw [queued]
          exact List.mem_cons_of_mem _ member
        · rwa [Function.update_of_ne here] at member
      · rcases List.mem_append.mp member with earlier | moved
        · exact Or.inr ⟨j, earlier⟩
        · obtain rfl : text = body := by simpa using (List.cons.inj (List.mem_singleton.mp moved)).2
          exact Or.inl ⟨i, by simp [queued]⟩
    · rintro (⟨j, member⟩ | ⟨j, member⟩)
      · by_cases here : j = i
        · subst here
          rw [queued, List.map_cons, List.mem_cons] at member
          rcases member with moved | later
          · obtain rfl : text = body := by simpa using moved
            exact Or.inr ⟨j, by simp⟩
          · exact Or.inl ⟨j, by rwa [Function.update_self]⟩
        · exact Or.inl ⟨j, by rwa [Function.update_of_ne here]⟩
      · exact Or.inr ⟨j, List.mem_append_left _ member⟩

theorem carried_back : Carried senders (MessageRouter.step senders net .back) text ↔ Carried senders net text := by
  simp only [MessageRouter.step]
  split <;> exact Iff.rfl

variable {server : ImageProcessor} {stored : Image → Bytes} {system : System κ ι}

omit [DecidableEq ι] in
/-- A process goes on, and what it has not sent yet is as before. -/
theorem underWay_staged {process : κ} {stage : Stage} (same : stage.unsent = (system.process process).unsent) {net : Network ι}
    (carried : Carried senders net text ↔ Carried senders system.net text) :
    UnderWay senders ⟨Function.update system.process process stage, net⟩ text ↔ UnderWay senders system text := by
  refine or_congr ⟨fun unsent => ?_, unsent_kept (by rw [same]; exact id)⟩ carried
  rcases unsent_from unsent with here | earlier
  · exact ⟨process, same ▸ here⟩
  · exact earlier

theorem underWay_request (process : κ) (host : ImageServer.Host) (oriRequestPath : Bytes) :
    UnderWay senders (step senders server stored system (.request process host oriRequestPath)) text ↔
      UnderWay senders system text := by
  cases stage : system.process process with
  | begun looked after texts => simp only [step, stage]
  | saved texts => simp only [step, stage]
  | idle =>
    simp only [step, stage]
    exact underWay_staged (by simp [stage, Stage.unsent]) Iff.rfl

/-- What a process has promised is under way once it has saved. -/
theorem underWay_save (process : κ) :
    UnderWay senders (step senders server stored system (.save process)) text ↔ UnderWay senders system text ∨
      ∃ looked after texts, system.process process = .begun looked after texts ∧ text ∈ texts := by
  cases stage : system.process process with
  | idle => simp [step, stage]
  | saved texts => simp [step, stage]
  | begun looked after texts =>
    simp only [step, stage]
    constructor
    · rintro (unsent | carried)
      · rcases unsent_from unsent with here | earlier
        · exact Or.inr ⟨looked, after, texts, rfl, here⟩
        · exact Or.inl (Or.inl earlier)
      · exact Or.inl (Or.inr carried)
    · rintro ((unsent | carried) | ⟨_, _, _, ⟨rfl, rfl, rfl⟩, member⟩)
      · exact Or.inl (unsent_kept (by simp [stage, Stage.unsent]) unsent)
      · exact Or.inr carried
      · exact Or.inl ⟨process, by simpa [Stage.unsent] using member⟩

theorem underWay_post (process : κ) (sender : ι) :
    UnderWay senders (step senders server stored system (.post process sender)) text ↔ UnderWay senders system text := by
  cases stage : system.process process with
  | idle => simp only [step, stage]
  | begun looked after texts => simp only [step, stage]
  | saved texts =>
    cases texts with
    | nil =>
      simp only [step, stage]
      exact underWay_staged (by simp [stage, Stage.unsent]) Iff.rfl
    | cons told texts =>
      simp only [step, stage]
      constructor
      · rintro (unsent | carried)
        · rcases unsent_from unsent with here | earlier
          · exact Or.inl ⟨process, by rw [stage]; exact List.mem_cons_of_mem _ here⟩
          · exact Or.inl earlier
        · rcases (carried_posted sender told).mp carried with rfl | earlier
          · exact Or.inl ⟨process, by simp [stage, Stage.unsent]⟩
          · exact Or.inr earlier
      · rintro (unsent | carried)
        · by_cases here : text = told
          · exact Or.inr ((carried_posted sender told).mpr (Or.inl here))
          · refine Or.inl (unsent_kept (fun member => ?_) unsent)
            rw [stage] at member
            exact (List.mem_cons.mp member).resolve_left here
        · exact Or.inr ((carried_posted sender told).mpr (Or.inr carried))

theorem underWay_front (describes : Describes senders flow system.net) (i : ι) :
    UnderWay senders (step senders server stored system (.pass (.front i))) text ↔ UnderWay senders system text :=
  or_congr Iff.rfl (carried_front describes i)

theorem underWay_back :
    UnderWay senders (step senders server stored system (.pass .back)) text ↔ UnderWay senders system text :=
  or_congr Iff.rfl carried_back

omit [DecidableEq κ] [DecidableEq ι] in
/-- The worker takes one text from the way, and puts none there. -/
theorem underWay_takes {host : CompressImage.Host} {net : Network ι} {i : ι} {body : Bytes} {rest : List (List Bytes)}
    (takes : Takes senders host system.net net i body rest) :
    UnderWay senders system text ↔ UnderWay senders { system with net } text ∨ text = body := by
  constructor
  · rintro (unsent | ⟨j, member⟩ | ⟨j, member⟩)
    · exact Or.inl (Or.inl unsent)
    · exact Or.inl (Or.inr (Or.inl ⟨j, takes.toBroker ▸ member⟩))
    · rw [takes.waiting, List.mem_cons] at member
      rcases member with here | later
      · exact Or.inr (by simpa using (List.cons.inj here).2)
      · exact Or.inl (Or.inr (Or.inr ⟨j, takes.left ▸ later⟩))
  · rintro ((unsent | ⟨j, member⟩ | ⟨j, member⟩) | rfl)
    · exact Or.inl unsent
    · exact Or.inr (Or.inl ⟨j, takes.toBroker ▸ member⟩)
    · exact Or.inr (Or.inr ⟨j, by rw [takes.waiting]; exact List.mem_cons_of_mem _ (takes.left ▸ member)⟩)
    · exact Or.inr (Or.inr ⟨i, by rw [takes.waiting]; exact List.mem_cons_self⟩)

end UnderWay

section Invariant
variable (senders : Senders ι) (server : ImageProcessor) (stored : Image → Bytes) (json : Json) (optimized : Bytes → Bytes)

/-- What a process that has looked at a disk is about to do. -/
structure Promises (disk : Disk) (looked after : Files) (texts : List Bytes) : Prop where
  known : ∀ text ∈ texts, Known json server text
  files : after = looked ∨ ∃ (old : Disk) (target : Bytes) (image : Image), looked = seen old ∧
    after = Function.update looked target (some (.thumbnail image)) ∧ Made server stored optimized disk target (stored image) 0 ∧
    ∃ text ∈ texts, AboutThumbnail json server text target
  told : ∀ text ∈ texts, ∀ path, AboutThumbnail json server text path → after path ≠ looked path ∧ (after path).isSome

structure Sound (uploads : Disk) (system : System κ ι) : Prop where
  described : ∃ flow, Describes senders flow system.net
  clean : Clean system.disk
  uploaded : ∀ path, ¬ server.thumbnailImagesRoot <+: path → system.disk path = uploads path
  pictures : ∀ path data, server.thumbnailImagesRoot <+: path → system.disk path = some data →
    ∃ times, Made server stored optimized system.disk path data times ∧
      (times = 0 → ∃ text, UnderWay senders system text ∧ AboutThumbnail json server text path)
  known : ∀ text, UnderWay senders system text → Known json server text
  begun : ∀ process looked after texts, system.process process = .begun looked after texts →
    Promises server stored json optimized system.disk looked after texts

/-- What a request is for can be made, stored and told about. -/
structure Usable (info : ThumbInfo) : Prop where
  folders : MakesFolders (mkdirLine info)
  unquoted : (39 : UInt8) ∉ info.targetImageName
  whole : (0 : UInt8) ∉ info.targetImageName
  inFolder : info.requestImageName.head? ≠ some slash
  encodes : ∃ text, json.encode (thumbnailMessage server info) = .ok text

/-- Requests are usable, only the server sends messages, and the worker has the one optimizer, which
writes its output whole. -/
def Careful (system : System κ ι) : Action κ ι → Prop
  | .request _ host oriRequestPath => host.encode = json.encode ∧ (∀ text, host.socket text = true) ∧
    ∀ info, server.extractThumbInfo (seen system.disk) oriRequestPath = some info → Usable server json info
  | .pass (.send _ _) => False
  | .pass (.work host) => host.optimized = optimized ∧ host.decode = json.decode ∧ host.outcome.output = .complete
  | _ => True

end Invariant

section Steps
variable {senders : Senders ι} {server : ImageProcessor} {stored : Image → Bytes} {json : Json} {optimized : Bytes → Bytes}
  {uploads : Disk} {system : System κ ι}

theorem Promises.later {before after : Disk} {looked files : Files} {texts : List Bytes}
    (promises : Promises server stored json optimized before looked files texts)
    (lasting : ∀ path, (before path).isSome → (after path).isSome) :
    Promises server stored json optimized after looked files texts := by
  refine ⟨promises.known, ?_, promises.told⟩
  rcases promises.files with same | ⟨old, target, image, look, update, made, told⟩
  · exact Or.inl same
  · exact Or.inr ⟨old, target, image, look, update, made.later lasting, told⟩

/-- What a call promises when it has looked at the disk. -/
theorem request_promises {host : ImageServer.Host} {oriRequestPath : Bytes} {disk : Disk} (encode : host.encode = json.encode)
    (sockets : ∀ text, host.socket text = true) (flag : server.sendMessageFlag = true)
    (usable : ∀ info, server.extractThumbInfo (seen disk) oriRequestPath = some info → Usable server json info) :
    let after := (resolveImageURI host server oriRequestPath ⟨seen disk, [], []⟩).2
    Promises server stored json optimized disk (seen disk) after.files (after.sent.map Prod.snd) := by
  intro after
  obtain ⟨middle, files, asked, served⟩ := @resolveImageURI_served host server oriRequestPath ⟨seen disk, [], []⟩ sockets flag
    fun info accepted => ⟨(usable info accepted).folders, encode ▸ (usable info accepted).encodes⟩
  have first : ∀ text ∈ middle.sent.map Prod.snd, AboutRequest json text := by
    intro text member
    rcases asked with none | ⟨told, encoded, sent⟩
    · simp [none] at member
    · obtain rfl : text = told := by simpa [sent] using member
      exact ⟨oriRequestPath, encode ▸ encoded⟩
  have silent (same : after.files = middle.files) (sent : after.sent = middle.sent) :
      Promises server stored json optimized disk (seen disk) after.files (after.sent.map Prod.snd) := by
    rw [same, sent, files]
    exact ⟨fun text member => Or.inl (first text member), Or.inl rfl,
      fun text member path about => absurd (first text member) about.not_request⟩
  rcases served with same | ⟨info, accepted, served⟩
  · exact silent (congrArg World.files same) (congrArg World.sent same)
  have use := usable info accepted
  obtain ⟨request, -, rfl⟩ := extractThumbInfo_some accepted
  cases served with
  | neither kept unsent => exact silent kept unsent
  | both image text path generates encoded made sent =>
    have about : AboutThumbnail json server text (request.targetImageName server) :=
      ⟨request, _, encode ▸ encoded, rfl, use.unquoted, use.whole, use.inFolder⟩
    have among : text ∈ after.sent.map Prod.snd := by simp [after, sent]
    have look : middle.files = seen disk := files
    have saved : after.files = Function.update (seen disk) (request.targetImageName server) (some (.thumbnail image)) := by
      rw [← look]
      exact made
    have either : ∀ other ∈ after.sent.map Prod.snd, AboutRequest json other ∨ other = text := by
      intro other member
      simp only [after, sent, List.map_append, List.map_cons, List.map_nil, List.mem_append, List.mem_singleton] at member
      exact member.imp_left (first other)
    refine ⟨?_, Or.inr ⟨disk, request.targetImageName server, image, rfl, saved, ⟨request, image, rfl, path, ?_,
      generates.permitted, rfl⟩, text, among, about⟩, ?_⟩
    · intro other member
      rcases either other member with earlier | rfl
      · exact Or.inl earlier
      · exact Or.inr ⟨_, about⟩
    · rw [path]
      have source := generates.source
      rw [files] at source
      simpa [isFileExists, seen] using source
    · intro other member named about'
      rcases either other member with earlier | rfl
      · exact absurd earlier about'.not_request
      · rw [about'.unique about, saved, Function.update_self]
        exact ⟨fresh_picture disk _ image, rfl⟩

omit [DecidableEq κ] in
/-- A step that leaves the disk alone and loses no text. -/
theorem Sound.moves {after : System κ ι} (sound : Sound senders server stored json optimized uploads system)
    (described : ∃ flow, Describes senders flow after.net) (same : after.disk = system.disk)
    (keeps : ∀ text path, AboutThumbnail json server text path → (system.disk path).isSome → UnderWay senders system text →
      UnderWay senders after text)
    (known : ∀ text, UnderWay senders after text → UnderWay senders system text ∨ Known json server text)
    (begun : ∀ process looked files texts, after.process process = .begun looked files texts →
      system.process process = .begun looked files texts ∨
        Promises server stored json optimized system.disk looked files texts) :
    Sound senders server stored json optimized uploads after where
  described := described
  clean := same ▸ sound.clean
  uploaded := same ▸ sound.uploaded
  pictures := by
    rw [same]
    intro path data under there
    obtain ⟨times, made, pending⟩ := sound.pictures path data under there
    refine ⟨times, made, fun zero => ?_⟩
    obtain ⟨text, way, about⟩ := pending zero
    exact ⟨text, keeps text path about (by simp [there]) way, about⟩
  known text way := (known text way).elim (sound.known text) id
  begun := by
    rw [same]
    intro process looked files texts stage
    exact (begun process looked files texts stage).elim (sound.begun process looked files texts) id

theorem sound_request (sound : Sound senders server stored json optimized uploads system) (flag : server.sendMessageFlag = true)
    (process : κ) (host : ImageServer.Host) (oriRequestPath : Bytes)
    (careful : Careful server json optimized system (.request process host oriRequestPath)) :
    Sound senders server stored json optimized uploads (step senders server stored system (.request process host oriRequestPath)) := by
  have way (text : Bytes) := @underWay_request κ ι _ _ senders text server stored system process host oriRequestPath
  obtain ⟨encode, sockets, usable⟩ := careful
  cases stage : system.process process with
  | begun looked after texts => simpa only [step, stage] using sound
  | saved texts => simpa only [step, stage] using sound
  | idle =>
    simp only [step, stage] at way ⊢
    refine sound.moves sound.described rfl (fun text _ _ _ => (way text).mpr) (fun text under => Or.inl ((way text).mp under)) ?_
    intro other looked files texts begun
    by_cases here : other = process
    · subst here
      simp only [Function.update_self, Stage.begun.injEq] at begun
      obtain ⟨rfl, rfl, rfl⟩ := begun
      exact Or.inr (request_promises encode sockets flag usable)
    · exact Or.inl (by simpa only [Function.update_of_ne here] using begun)

omit [DecidableEq ι] in
/-- A process that has gone on to something else is not about to write. -/
theorem begun_staged {process : κ} {stage : Stage} (plain : ∀ looked after texts, stage ≠ .begun looked after texts) (other : κ)
    (looked files : Files) (texts : List Bytes)
    (begun : Function.update system.process process stage other = .begun looked files texts) :
    system.process other = .begun looked files texts := by
  by_cases here : other = process
  · subst here
    rw [Function.update_self] at begun
    exact absurd begun (plain looked files texts)
  · rwa [Function.update_of_ne here] at begun

theorem sound_post (sound : Sound senders server stored json optimized uploads system) (process : κ) (sender : ι) :
    Sound senders server stored json optimized uploads (step senders server stored system (.post process sender)) := by
  have way (text : Bytes) := @underWay_post κ ι _ _ senders text server stored system process sender
  have moves {after : System κ ι} (described : ∃ flow, Describes senders flow after.net) (same : after.disk = system.disk)
      (way : ∀ text, UnderWay senders after text ↔ UnderWay senders system text) {stage : Stage}
      (plain : ∀ looked after texts, stage ≠ .begun looked after texts)
      (staged : after.process = Function.update system.process process stage) :
      Sound senders server stored json optimized uploads after := by
    refine sound.moves described same (fun text _ _ _ => (way text).mpr) (fun text under => Or.inl ((way text).mp under)) ?_
    rw [staged]
    intro other looked files texts begun
    exact Or.inl (begun_staged plain other looked files texts begun)
  cases stage : system.process process with
  | idle => simpa only [step, stage] using sound
  | begun looked after texts => simpa only [step, stage] using sound
  | saved texts =>
    cases texts with
    | nil =>
      simp only [step, stage] at way ⊢
      exact moves sound.described rfl way (by simp) rfl
    | cons text texts =>
      have unsent : UnderWay senders system text := Or.inl ⟨process, by simp [stage, Stage.unsent]⟩
      obtain ⟨flow, describes⟩ := sound.described
      simp only [step, stage] at way ⊢
      exact moves ⟨flow, describes_send describes sender ⟨text, (sound.known text unsent).plain.2⟩⟩ rfl way (by simp) rfl

omit [DecidableEq κ] in
/-- One picture below the root is new, or says something else. -/
theorem Sound.changes {after : System κ ι} (sound : Sound senders server stored json optimized uploads system)
    (described : ∃ flow, Describes senders flow after.net) {target data : Bytes} (request : SizedRequest)
    (named : target = request.targetImageName server) (changed : after.disk = Function.update system.disk target (some data))
    (keeps : ∀ text, UnderWay senders system text → UnderWay senders after text ∨
      ∀ path, AboutThumbnail json server text path → path = target)
    (known : ∀ text, UnderWay senders after text → Known json server text)
    (begun : ∀ process looked files texts, after.process process = .begun looked files texts →
      system.process process = .begun looked files texts)
    (made : ∃ times, Made server stored optimized after.disk target data times ∧
      (times = 0 → ∃ text, UnderWay senders after text ∧ AboutThumbnail json server text target)) :
    Sound senders server stored json optimized uploads after where
  described := described
  clean := by
    intro path
    rw [changed, Function.update_of_ne, sound.clean path]
    rw [named]
    exact (target_ne_tempFile request path).symm
  uploaded := by
    intro path outside
    rw [changed, Function.update_of_ne, sound.uploaded path outside]
    rintro rfl
    exact outside (named ▸ List.prefix_append _ _)
  pictures := by
    intro path content under there
    by_cases here : path = target
    · subst here
      rw [changed, Function.update_self] at there
      obtain rfl := Option.some.inj there
      exact made
    · rw [changed, Function.update_of_ne here] at there
      obtain ⟨times, earlier, pending⟩ := sound.pictures path content under there
      refine ⟨times, changed ▸ earlier.later (lasting_update system.disk target data), fun zero => ?_⟩
      obtain ⟨text, way, about⟩ := pending zero
      rcases keeps text way with still | only
      · exact ⟨text, still, about⟩
      · exact absurd (only path about) here
  known := known
  begun := by
    intro process looked files texts stage
    rw [changed]
    exact (sound.begun process looked files texts (begun process looked files texts stage)).later
      (lasting_update system.disk target data)

theorem sound_save (sound : Sound senders server stored json optimized uploads system) (process : κ) :
    Sound senders server stored json optimized uploads (step senders server stored system (.save process)) := by
  have way (text : Bytes) := @underWay_save κ ι _ _ senders text server stored system process
  cases stage : system.process process with
  | idle => simpa only [step, stage] using sound
  | saved texts => simpa only [step, stage] using sound
  | begun looked after texts =>
    obtain ⟨promised, files, -⟩ := sound.begun process looked after texts stage
    obtain ⟨flow, describes⟩ := sound.described
    have described (disk : Disk) : ∃ flow, Describes senders flow (withDisk system.net disk) :=
      ⟨flow, { describes with }⟩
    have begun := @begun_staged κ ι _ system process (.saved texts) (by simp)
    simp only [step, stage, Stage.begun.injEq] at way ⊢
    have known (text : Bytes) (under : UnderWay senders ⟨Function.update system.process process (.saved texts),
        withDisk system.net (written stored looked after system.disk)⟩ text) :
        UnderWay senders system text ∨ Known json server text := by
      rcases (way text).mp under with earlier | ⟨_, _, _, ⟨rfl, rfl, rfl⟩, member⟩
      · exact Or.inl earlier
      · exact Or.inr (promised text member)
    rcases files with rfl | ⟨old, target, image, rfl, rfl, ⟨request, picture, named, source, there, permitted, drawn⟩,
      text, among, about⟩
    · refine sound.moves (described _) (written_same stored after system.disk)
        (fun text _ _ _ under => (way text).mpr (Or.inl under)) known ?_
      intro other looked files texts stage
      exact Or.inl (begun other looked files texts stage)
    · have changed := written_picture stored old system.disk target image
      refine sound.changes (described _) request named changed (fun text under => Or.inl ((way text).mpr (Or.inl under)))
        (fun text under => (known text under).elim (sound.known text) id) begun ⟨0, ?_, ?_⟩
      · refine ⟨request, picture, named, source, ?_, permitted, drawn⟩
        have lasts := lasting_update system.disk target (stored image) _ there
        rwa [← changed] at lasts
      · intro _
        exact ⟨text, (way text).mpr (Or.inr ⟨_, _, _, ⟨rfl, rfl, rfl⟩, among⟩), about⟩

theorem sound_work (sound : Sound senders server stored json optimized uploads system)
    (shared : server.thumbnailImagesRoot = appendPathSimbol2Tail thumbnailImaegRoot) (host : CompressImage.Host)
    (careful : host.optimized = optimized ∧ host.decode = json.decode ∧ host.outcome.output = .complete) :
    Sound senders server stored json optimized uploads (step senders server stored system (.pass (.work host))) := by
  obtain ⟨same, decode, complete⟩ := careful
  obtain ⟨flow, describes⟩ := sound.described
  rcases work_takes describes host with unchanged | ⟨i, body, rest, takes⟩
  · simpa only [step, unchanged] using sound
  have described := describes_work describes host
  simp only [step]
  generalize MessageRouter.step senders system.net (.work host) = net at takes described
  have way (text : Bytes) := @underWay_takes κ ι senders text system host net i body rest takes
  have taken : UnderWay senders system body := (way body).mpr (Or.inr rfl)
  have world := takes.world (sound.known body taken).plain.1
  have known (text : Bytes) (under : UnderWay senders { system with net } text) : UnderWay senders system text :=
    (way text).mpr (Or.inl under)
  rcases sound.known body taken with request | ⟨target, about⟩
  · rw [request.arrives decode] at world
    refine sound.moves described (congrArg CompressImage.World.disk world) ?_ (fun text under => Or.inl (known text under))
      fun _ _ _ _ stage => Or.inl stage
    rintro text path thumbnail - under
    rcases (way text).mp under with still | rfl
    · exact still
    · exact absurd request thumbnail.not_request
  have disk : net.worker.world.disk = (compressImage host target system.net.worker.world).2.disk := by
    rw [world]
    exact about.arrives shared decode _
  have operand := about.operand shared
  have aboutTarget := about
  obtain ⟨request, files, -, named, -, whole, -⟩ := about
  have under : server.thumbnailImagesRoot <+: target := by
    rw [named]
    exact List.prefix_append _ _
  cases present : system.disk target with
  | none =>
    refine sound.moves described (disk.trans (compressImage_missing host operand whole present)) ?_
      (fun text under => Or.inl (known text under)) fun _ _ _ _ stage => Or.inl stage
    intro text path thumbnail there under
    rcases (way text).mp under with still | rfl
    · exact still
    · rw [thumbnail.unique aboutTarget, present] at there
      cases there
  | some original =>
    have changed : net.worker.world.disk = Function.update system.disk target (some (optimized original)) := by
      rw [disk, ← same]
      exact compressImage_complete host complete operand whole sound.clean present
    obtain ⟨times, made, -⟩ := sound.pictures target original under present
    refine sound.changes described request named changed ?_ (fun text under => sound.known text (known text under))
      (fun _ _ _ _ stage => stage) ⟨times + 1, ?_, fun zero => absurd zero (Nat.succ_ne_zero times)⟩
    · intro text under
      rcases (way text).mp under with still | rfl
      · exact Or.inl still
      · exact Or.inr fun path thumbnail => thumbnail.unique aboutTarget
    · have later := made.again.later (lasting_update system.disk target (optimized original))
      rwa [← changed] at later

theorem sound_step (sound : Sound senders server stored json optimized uploads system)
    (shared : server.thumbnailImagesRoot = appendPathSimbol2Tail thumbnailImaegRoot) (flag : server.sendMessageFlag = true)
    (action : Action κ ι) (careful : Careful server json optimized system action) :
    Sound senders server stored json optimized uploads (step senders server stored system action) := by
  cases action with
  | request process host oriRequestPath => exact sound_request sound flag process host oriRequestPath careful
  | save process => exact sound_save sound process
  | post process sender => exact sound_post sound process sender
  | pass action =>
    obtain ⟨flow, describes⟩ := sound.described
    have passed {other : MessageRouter.Action ι} (described : ∃ flow, Describes senders flow
          (MessageRouter.step senders system.net other))
        (disk : (MessageRouter.step senders system.net other).worker.world = system.net.worker.world)
        (way : ∀ text, UnderWay senders (step senders server stored system (.pass other)) text ↔
          UnderWay senders system text) :
        Sound senders server stored json optimized uploads (step senders server stored system (.pass other)) :=
      sound.moves described (congrArg CompressImage.World.disk disk) (fun text _ _ _ => (way text).mpr)
        (fun text under => Or.inl ((way text).mp under)) fun _ _ _ _ stage => Or.inl stage
    cases action with
    | send sender message => exact careful.elim
    | front i =>
      refine passed (describes_front describes i) ?_ fun text => underWay_front describes i
      simp only [MessageRouter.step]
      split <;> rfl
    | back =>
      refine passed (describes_back describes) ?_ fun text => underWay_back
      simp only [MessageRouter.step]
      split <;> rfl
    | work host => exact sound_work sound shared host careful

omit [DecidableEq κ] in
theorem sound_start (world : CompressImage.World) (clean : Clean world.disk)
    (empty : ∀ path, server.thumbnailImagesRoot <+: path → world.disk path = none) :
    Sound senders server stored json optimized world.disk (System.start world : System κ ι) where
  described := ⟨_, describes_start senders world⟩
  clean := clean
  uploaded path _ := rfl
  pictures := by
    intro path data under there
    cases (empty path under).symm.trans there
  known := by
    rintro text (⟨process, unsent⟩ | ⟨i, queued⟩ | ⟨i, waiting⟩)
    · cases unsent
    · cases queued
    · cases waiting
  begun := by
    rintro process looked after texts ⟨⟩

theorem sound_run (shared : server.thumbnailImagesRoot = appendPathSimbol2Tail thumbnailImaegRoot)
    (flag : server.sendMessageFlag = true) {world : CompressImage.World} (clean : Clean world.disk)
    (empty : ∀ path, server.thumbnailImagesRoot <+: path → world.disk path = none) {actions : List (Action κ ι)}
    (careful : Along (step senders server stored) (Careful server json optimized) (.start world) actions) :
    Sound senders server stored json optimized world.disk (run (step senders server stored) (.start world) actions) := by
  refine run_keeps ?_ (sound_start world clean empty) careful
  intro system action sound allowed
  exact sound_step sound shared flag action allowed

end Steps

/-- The newer server as it would be set up for the folder of the worker. -/
def deployed : ImageProcessor :=
  .new { Thumbnail.processorConfig with thumbnailImagesRoot := thumbnailImaegRoot, sendMessageFlag := true }

def album : CompressImage.World where
  disk path := if path = bytes "/www/target/images/public/p/a.jpg" then some (bytes "JPEG") else none
  compressed := []
  sent := []

def albumMessage : Message :=
  ⟨2, none, some (bytes "p/a.jpg"), some (bytes "p/a_100*100.jpg"), some 100, some 100⟩

def albumText : Bytes :=
  bytes "\x7b\"width\":100,\"sourceImageName\":\"p\\/a.jpg\",\"msgType\":2,\"targetImageName\":\"p\\/a_100*100.jpg\",\"height\":100\x7d"

def albumJson : Json where
  encode message := if message = albumMessage then .ok albumText else .error .argument
  decode text := if text = albumText then .ok (.table [(bytes "width", .number 100),
    (bytes "sourceImageName", .string (bytes "p/a.jpg")), (bytes "msgType", .number 2),
    (bytes "targetImageName", .string (bytes "p/a_100*100.jpg")), (bytes "height", .number 100)]) else .error .argument
  carries := by
    intro message text encoded
    split at encoded
    next same =>
      cases encoded
      subst same
      exact ⟨_, if_pos rfl, rfl, rfl, rfl⟩
    next => cases encoded
  text := by
    intro message text encoded
    split at encoded
    next =>
      cases encoded
      exact ⟨by decide +kernel, by decide +kernel⟩
    next => cases encoded

def albumHost : ImageServer.Host := { ImageServer.Host.removing 1000 800 with encode := albumJson.encode }

/-- An optimizer that keeps the first two bytes. -/
def albumWorker : CompressImage.Host := .running (List.take 2) ⟨true, .complete⟩ albumJson.decode

def albumRequest : Action Unit Unit := .request () albumHost (bytes "/p/a.100x100.jpg")

theorem album_careful : Careful deployed albumJson (List.take 2) (System.start album : System Unit Unit) albumRequest := by
  have accepted : deployed.extractThumbInfo (seen album.disk) (bytes "/p/a.100x100.jpg") = some ⟨true, false,
      bytes "/www/target/images/public/p/a.jpg", bytes "p/a_100*100.jpg", bytes "/www/images/public/thumbnail/p/",
      bytes "/www/images/public/thumbnail/p/a_100*100.jpg", some 100, some 100⟩ := by decide +kernel
  refine ⟨rfl, fun _ => rfl, fun info asked => ?_⟩
  obtain rfl := Option.some.inj (accepted.symm.trans asked)
  exact {
    folders := Or.inl ⟨[Shell.literal (bytes "/www/images/public/thumbnail/p/")], by decide +kernel⟩
    unquoted := by decide +kernel
    whole := by decide +kernel
    inFolder := by decide +kernel
    encodes := ⟨albumText, by decide +kernel⟩ }

theorem album_clean : Clean album.disk ∧ ∀ path, deployed.thumbnailImagesRoot <+: path → album.disk path = none := by
  constructor
  · intro path
    refine if_neg fun same => ?_
    have ends : bytes ".comps.jpg" <:+ bytes "/www/target/images/public/p/a.jpg" := ⟨path, same⟩
    revert ends
    decide +kernel
  · rintro path under
    refine if_neg fun same => ?_
    subst same
    revert under
    decide +kernel

end ImageSystem
end ImageServer
