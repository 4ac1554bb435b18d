import ImageServer.Proofs.CompressedPaths
import ImageServer.Proofs.ThumbInfo

/-! The names in a message about a thumbnail. The server cuts its roots off the two files, and
the worker puts a root back before them. Each side drops one slash, so the two agree up to
doubled slashes. -/

namespace ImageServer

/-- A run of slashes as one slash. -/
def collapse : Bytes → Bytes
  | [] => []
  | b :: rest => if b = slash ∧ rest.head? = some slash then collapse rest else b :: collapse rest

theorem collapse_doubled (start rest : Bytes) :
    collapse (start ++ slash :: slash :: rest) = collapse (start ++ slash :: rest) := by
  induction start with
  | nil => simp [collapse]
  | cons b start ih =>
    have heads : (start ++ slash :: slash :: rest).head? = (start ++ slash :: rest).head? := by
      cases start <;> rfl
    simp only [List.cons_append, collapse, heads, ih]

theorem collapse_join {root : Bytes} (folder : IsFolder root) (name : Bytes) :
    collapse (root ++ removePathSimbolAtHead name) = collapse (root ++ name) := by
  obtain ⟨start, rfl⟩ := folder
  rcases removePathSimbolAtHead_cases name with same | slashed
  · rw [same]
  · generalize removePathSimbolAtHead name = rest at slashed
    subst slashed
    simpa using (collapse_doubled start rest).symm

/-- Counted from the last byte of its folder, a file is its name with a slash. -/
theorem name_below {root : Bytes} (folder : IsFolder root) (name : Bytes) :
    removePathSimbolAtHead (Lua.sub (root ++ name) (Lua.len root) (Lua.len (root ++ name))) = name := by
  obtain ⟨start, rfl⟩ := folder
  have position : Lua.len (start ++ [slash]) = ((start.length + 1 : Nat) : Int) := by simp [Lua.len]
  have below : (start ++ [slash] ++ name).drop start.length = slash :: name := by simp
  rw [position, Lua.sub_from, below, removePathSimbolAtHead_slash]

theorem thumbnailMessage_names (self : ImageProcessor) (request : SizedRequest) (files : Files) :
    (thumbnailMessage self (request.info self files)).sourceImageName = some (request.stem ++ request.suffix) ∧
      (thumbnailMessage self (request.info self files)).targetImageName = some request.requestImageName := by
  have source := name_below self.original_folder (request.stem ++ request.suffix)
  have target := name_below self.thumbnail_folder request.requestImageName
  rw [← List.append_assoc] at source
  exact ⟨congrArg some source, congrArg some target⟩

namespace CompressImage

/-- The worker with other roots than its own. -/
def onMessageArriveIn (thumbnailRoot originalRoot : Bytes) (host : Host) (jsonMsg : Bytes) : Handling Bool := do
  let msg ← Exec.lift (host.decode jsonMsg)
  if !Value.truthy (some msg) then
    return false
  let sourceImageName ← Exec.lift (msg.index (bytes "sourceImageName"))
  if !Value.truthy sourceImageName then
    return false
  let msgType ← Exec.lift (msg.index (bytes "msgType"))
  if Value.isNumber msgType 2 then
    let targetImageName ← Exec.lift (msg.index (bytes "targetImageName"))
    let name ← Exec.lift (Value.removePathSimbolAtHead targetImageName >>= Value.concatenated)
    compressImage host (appendPathSimbol2Tail thumbnailRoot ++ name)
    sendMessage host jsonMsg resendServerUrl
    return true
  else if Value.isNumber msgType 3 then
    let imagePath ← Exec.lift (msg.index (bytes "imagePath"))
    let name ← Exec.lift (Value.removePathSimbolAtHead imagePath >>= Value.concatenated)
    let _imageFullPath := appendPathSimbol2Tail originalRoot ++ name
    compressImage host (← Exec.lift (Value.concatenated imagePath))
    return true
  else
    let _unknown ← Exec.lift (Value.concatenated msgType)
    return false

theorem onMessageArriveIn_own : onMessageArriveIn thumbnailImaegRoot originalImageRoot = onMessageArrive := rfl

/-- What comes out of the JSON library for a message: its type and its texts are as they were. -/
structure Carries (message : Message) (value : Value) : Prop where
  msgType : value.index (bytes "msgType") = .ok (some (.number (.fin message.msgType)))
  sourceImageName : value.index (bytes "sourceImageName") = .ok (message.sourceImageName.map .string)
  targetImageName : value.index (bytes "targetImageName") = .ok (message.targetImageName.map .string)

/-- The one path that a message about a thumbnail makes the worker compress. -/
theorem onMessageArriveIn_thumbnail (thumbnailRoot originalRoot : Bytes) (host : Host) (jsonMsg : Bytes) {message : Message}
    {value : Value} {source target : Bytes} (decoded : host.decode jsonMsg = .ok value) (carried : Carries message value)
    (two : message.msgType = 2) (sourceName : message.sourceImageName = some source)
    (targetName : message.targetImageName = some target) (world : World) :
    (onMessageArriveIn thumbnailRoot originalRoot host jsonMsg world).2.compressed =
      world.compressed ++ [appendPathSimbol2Tail thumbnailRoot ++ removePathSimbolAtHead target] := by
  obtain ⟨msgType, sourceImageName, targetImageName⟩ := carried
  have truthy : Value.truthy (some value) = true := by
    cases value with
    | table fields => rfl
    | _ => cases msgType
  rw [two] at msgType
  rw [sourceName] at sourceImageName
  rw [targetName] at targetImageName
  have named : Value.truthy (some (.string source)) = true := rfl
  have isTwo : Value.isNumber (some (.number (.fin ((2 : Nat) : ℚ)))) 2 = true := by decide
  have name : (Value.removePathSimbolAtHead (some (.string target)) >>= Value.concatenated) =
      .ok (removePathSimbolAtHead target) := rfl
  obtain ⟨after, done, logged⟩ := compressImage_compressed host
    (appendPathSimbol2Tail thumbnailRoot ++ removePathSimbolAtHead target) world
  simp only [onMessageArriveIn, Exec.bind_run, Exec.lift_run, decoded, truthy, sourceImageName, Option.map_some, named,
    msgType, isTwo, targetImageName, name, done, Bool.not_true, Bool.false_eq_true, if_false, if_true, sendMessage,
    Exec.modify_run, Exec.pure_run]
  split <;> exact logged

/-- The worker finds the thumbnail that was saved, up to doubled slashes, and the name of its source
is exactly what follows the root of the uploaded images. -/
theorem worker_finds_saved (config : ProcessConfig) (originalRoot : Bytes) {files : Files} {oriRequestPath : Bytes}
    {info : ThumbInfo} (accepted : (ImageProcessor.new config).extractThumbInfo files oriRequestPath = some info)
    (host : Host) {jsonMsg : Bytes} {value : Value} (decoded : host.decode jsonMsg = .ok value)
    (carried : Carries (thumbnailMessage (.new config) info) value) (world : World) :
    (∃ imageFullPath, (onMessageArriveIn config.thumbnailImagesRoot originalRoot host jsonMsg world).2.compressed =
        world.compressed ++ [imageFullPath] ∧ collapse imageFullPath = collapse info.targetImageName) ∧
      ∃ name, value.index (bytes "sourceImageName") = .ok (some (.string name)) ∧
        (ImageProcessor.new config).originalImagesRoot ++ name = info.sourceImageName := by
  obtain ⟨request, -, rfl⟩ := extractThumbInfo_some accepted
  obtain ⟨source, target⟩ := thumbnailMessage_names (.new config) request files
  constructor
  · refine ⟨_, onMessageArriveIn_thumbnail _ originalRoot host jsonMsg decoded carried rfl source target world, ?_⟩
    exact collapse_join (ImageProcessor.new config).thumbnail_folder request.requestImageName
  · refine ⟨request.stem ++ request.suffix, ?_, ?_⟩
    · rw [carried.sourceImageName, source]
      rfl
    · simp [SizedRequest.info, SizedRequest.sourceImageName]

/-- A thumbnail at the root has a slash too many, and the worker finds it without. -/
theorem worker_finds_saved_at_root :
    let self := ImageProcessor.new Thumbnail.processorConfig
    let fields := [(bytes "msgType", .number 2), (bytes "sourceImageName", .string (bytes "/a.jpg")),
      (bytes "targetImageName", .string (bytes "/a_100*100.jpg"))]
    ∃ info, self.extractThumbInfo (fun _ => none) (bytes "/a.100x100.jpg") = some info ∧
      info.targetImageName = bytes "/www/target/images/thumbnail//a_100*100.jpg" ∧
      ∃ imageFullPath, (onMessageArriveIn (bytes "/www/target/images/thumbnail/") originalImageRoot (reading fields)
          (bytes "message") ⟨fun _ => none, [], []⟩).2.compressed = [imageFullPath] ∧
        collapse imageFullPath = collapse info.targetImageName := by
  intro self fields
  have checked : (self.extractThumbInfo (fun _ => none) (bytes "/a.100x100.jpg")).any (fun info =>
      decide (thumbnailMessage self info = ⟨2, none, some (bytes "/a.jpg"), some (bytes "/a_100*100.jpg"),
        info.width, info.height⟩) &&
      decide (info.targetImageName = bytes "/www/target/images/thumbnail//a_100*100.jpg")) = true := by decide +kernel
  obtain ⟨info, accepted, facts⟩ := (Option.any_eq_true _ _).mp checked
  simp only [Bool.and_eq_true, decide_eq_true_eq] at facts
  refine ⟨info, accepted, facts.2, ?_⟩
  refine (worker_finds_saved Thumbnail.processorConfig originalImageRoot accepted (reading fields) rfl ?_
    ⟨fun _ => none, [], []⟩).1
  rw [show ImageProcessor.new Thumbnail.processorConfig = self from rfl, facts.1]
  exact ⟨rfl, rfl, rfl⟩

end CompressImage
end ImageServer
