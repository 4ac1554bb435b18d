import ImageServer.Proofs.Answers
import ImageServer.Proofs.SavedNames
import ImageServer.Proofs.WorkerRuns

/-! Both ends of a message about a thumbnail: a call that saves one sends one message about it, and a
worker that reads the message replaces the one file. -/

namespace ImageServer

theorem report_run {host : Host} (sockets : ∀ text, host.socket text = true) (message : Message) (serverUrl : Bytes)
    (world : World) :
    report host message serverUrl world = match host.encode message with
      | .error raised => (.error raised, world)
      | .ok text => (.ok (), { world with sent := world.sent ++ [(serverUrl, text)] }) := by
  simp only [report, Exec.bind_run, Exec.lift_run]
  cases host.encode message with
  | error raised => rfl
  | ok text => simp only [sendMessage, sockets, if_true, Exec.modify_run]

/-- A thumbnail is saved and a message about it sent, both or neither. -/
inductive Served (host : Host) (self : ImageProcessor) (info : ThumbInfo) (before after : World) : Prop
  | neither (files : after.files = before.files) (sent : after.sent = before.sent)
  | both (image : Image) (text : Bytes) (path : image.path = info.sourceImageName)
      (generates : Generates host self before.files info)
      (encoded : host.encode (thumbnailMessage self info) = .ok text)
      (files : after.files = Function.update before.files info.targetImageName (some (.thumbnail image)))
      (sent : after.sent = before.sent ++ [(self.serverUrl, text)])

section
variable {host : Host} {self : ImageProcessor} {info : ThumbInfo} (sockets : ∀ text, host.socket text = true)
  (flag : self.sendMessageFlag = true) (folders : MakesFolders (mkdirLine info))
  (encodes : ∃ text, host.encode (thumbnailMessage self info) = .ok text)
include sockets flag folders encodes

theorem processImage_served (toGenWaterMark : Bool) (waterMarkConfig : Option WaterMarkKey) (world : World) :
    Served host self info world (processImage host self info toGenWaterMark waterMarkConfig world).2 := by
  obtain ⟨text, encoded⟩ := encodes
  have course := processImage_course host self info toGenWaterMark waterMarkConfig world
  have kept := host.mkdir_keeps (mkdirLine info) world.files folders
  generalize processImage host self info toGenWaterMark waterMarkConfig world = outcome at course
  cases course with
  | unsaved files sent =>
    refine .neither ?_ sent
    rcases files with same | ⟨-, moved⟩
    · exact same
    · exact moved.trans kept
  | saved picture image middle generates loaded rendered files sent =>
    simp only [notify, flag, Bool.and_self, if_true, Exec.bind_run, Exec.pure_run, report_run sockets, encoded]
    refine .both image text ((Image.new_path loaded) ▸ renderImage_path rendered) generates encoded ?_ ?_
    · rw [← kept]
      exact files
    · exact congrArg (· ++ [(self.serverUrl, text)]) sent

theorem generateAndAnswer_served (world : World) :
    Served host self info world (generateAndAnswer host self info world).2 := by
  rw [generateAndAnswer_result]
  cases info.targetFileExists with
  | true => exact .neither rfl rfl
  | false =>
    have processed := processImage_served sockets flag folders encodes (selectWaterMark self info).1
      (selectWaterMark self info).2 world
    simp only [Bool.false_eq_true, if_false]
    split <;> exact processed

end

/-- A call sends a message about the request at most, and then saves a thumbnail and sends a message about
it, both or neither. -/
theorem resolveImageURI_served {host : Host} {self : ImageProcessor} {oriRequestPath : Bytes} {world : World}
    (sockets : ∀ text, host.socket text = true) (flag : self.sendMessageFlag = true)
    (usable : ∀ info, self.extractThumbInfo world.files oriRequestPath = some info →
      MakesFolders (mkdirLine info) ∧ ∃ text, host.encode (thumbnailMessage self info) = .ok text) :
    let after := (resolveImageURI host self oriRequestPath world).2
    ∃ middle : World, middle.files = world.files ∧
      (middle.sent = world.sent ∨ ∃ text, host.encode (requestMessage oriRequestPath) = .ok text ∧
        middle.sent = world.sent ++ [(self.serverUrl, text)]) ∧
      (after = middle ∨ ∃ info, self.extractThumbInfo world.files oriRequestPath = some info ∧
        Served host self info middle after) := by
  intro after
  cases accepted : self.extractThumbInfo world.files oriRequestPath with
  | none =>
    refine ⟨world, rfl, Or.inl rfl, Or.inl ?_⟩
    simp only [after]
    rw [resolveImageURI_refused accepted]
  | some info =>
    obtain ⟨folders, encodes⟩ := usable info accepted
    have thumb : info.isThumbRequest = true := by
      obtain ⟨request, -, rfl⟩ := extractThumbInfo_some accepted
      rfl
    have goes (middle : World) := generateAndAnswer_served sockets flag folders encodes middle
    simp only [after, resolveImageURI, Exec.bind_run, Exec.get_run, accepted, thumb, Bool.not_true, Bool.false_eq_true,
      if_false]
    cases self.sendMessageFlag4EveryReq with
    | false => exact ⟨world, rfl, Or.inl rfl, Or.inr ⟨info, rfl, goes world⟩⟩
    | true =>
      simp only [if_true, Exec.bind_run, report_run sockets]
      cases encoded : host.encode (requestMessage oriRequestPath) with
      | error raised => exact ⟨world, rfl, Or.inl rfl, Or.inl rfl⟩
      | ok text =>
        refine ⟨{ world with sent := world.sent ++ [(self.serverUrl, text)] }, rfl, Or.inr ⟨text, rfl, rfl⟩, Or.inr ?_⟩
        exact ⟨info, rfl, goes _⟩

namespace CompressImage

/-- A complete output replaces the image and nothing else. -/
theorem compressImage_complete (host : Host) (complete : host.outcome.output = .complete) {path : Bytes}
    (operand : Operand path) (whole : (0 : UInt8) ∉ path) {world : World} (clean : Clean world.disk) {original : Bytes}
    (present : world.disk path = some original) :
    (compressImage host path world).2.disk = Function.update world.disk path (some (host.optimized original)) := by
  have lasting : host.outcome.Whole := by
    rintro content truncated
    cases complete.symm.trans truncated
  have image := compressImage_image host operand.1 whole operand.2 present
  simp only [optimize, complete, present, Function.update_self, Option.some_or] at image
  rcases compressImage_disk host lasting operand clean with same | ⟨again, found, replaced⟩
  · rw [same] at image ⊢
    exact (Function.update_eq_self_iff.mpr image.symm).symm
  · obtain rfl := Option.some.inj (present.symm.trans found)
    exact replaced

theorem compressImage_missing (host : Host) {path : Bytes} (operand : Operand path) (whole : (0 : UInt8) ∉ path)
    {world : World} (missing : world.disk path = none) : (compressImage host path world).2.disk = world.disk := by
  rw [compressImage_run host operand.1 whole, missing]
  rfl

/-- What comes out of the JSON library for a message is a table. -/
theorem Carries.table {message : Message} {value : Value} (carries : Carries message value) :
    ∃ fields, value = .table fields := by
  have msgType := carries.msgType
  cases value with
  | table fields => exact ⟨fields, rfl⟩
  | _ => cases msgType

theorem onMessageArrive_request (host : Host) {jsonMsg : Bytes} {value : Value} {oriRequestPath : Bytes}
    (decoded : host.decode jsonMsg = .ok value) (carries : Carries (requestMessage oriRequestPath) value) (world : World) :
    onMessageArrive host jsonMsg world = (.ok false, world) := by
  obtain ⟨fields, rfl⟩ := carries.table
  have missing : field fields "sourceImageName" = none := Except.ok.inj carries.sourceImageName
  exact onMessageArrive_nameless host jsonMsg world decoded (by rw [missing]; rfl)

theorem onMessageArrive_carried (host : Host) {jsonMsg : Bytes} {value : Value} {message : Message} {source target : Bytes}
    (decoded : host.decode jsonMsg = .ok value) (carries : Carries message value) (two : message.msgType = 2)
    (sourceName : message.sourceImageName = some source) (targetName : message.targetImageName = some target) (world : World) :
    (onMessageArrive host jsonMsg world).2.disk =
      (compressImage host (appendPathSimbol2Tail thumbnailImaegRoot ++ removePathSimbolAtHead target) world).2.disk := by
  obtain ⟨fields, rfl⟩ := carries.table
  have msgType : field fields "msgType" = some (.number (.fin message.msgType)) := Except.ok.inj carries.msgType
  have named : field fields "sourceImageName" = message.sourceImageName.map .string := Except.ok.inj carries.sourceImageName
  have targeted : field fields "targetImageName" = message.targetImageName.map .string :=
    Except.ok.inj carries.targetImageName
  rw [two] at msgType
  rw [sourceName] at named
  rw [targetName] at targeted
  have isTwo : Value.isNumber (field fields "msgType") 2 = true := by
    rw [msgType]
    decide
  exact (onMessageArrive_thumbnail host jsonMsg world decoded (by rw [named]; rfl) isTwo targeted).1

end CompressImage

end ImageServer
