import ImageServer.Proofs.Scaling
import ImageServer.ThumbnailScaling

/-! The size of what the older server saves. Its guard leaves small pictures as they are, and its
caller saves them under the name of the size that was asked for. -/

namespace ImageServer

/-- A resize that succeeds makes the size it was asked for, and so does every canvas. -/
structure Magick.Obeys (magick : Magick) : Prop where
  resizes : ∀ {size width height made}, magick.resizeImage size width height = some made → made = (width, height)
  canvases : ∀ width height left top, magick.extentImage width height left top = true

namespace ThumbnailServer
open Arithmetic

namespace ResizeCall
section
variable {α : Type} [Arithmetic α] (magick : Magick) (call : ResizeCall α) (wand : Wand)

/-- The wand after a resize that may fail. -/
def scaledTo (width height : α) (next : Wand → Wand) : Except LuaError (Option Bool) × Wand :=
  match magick.resizeImage (wand.image.width, wand.image.height) (toInt width) (toInt height) with
  | none => (.error (.thrown (Image.magickName ++ bytes ": error resizing image")),
      wand.asked wand.image (toInt width) (toInt height))
  | some (rwidth, rheight) => (.ok none, next (wand.asked (wand.image.scaled rwidth rheight) (toInt width) (toInt height)))

/-- What the guards decide comes before the wand is touched. -/
def guarded (guard : Except LuaError Bool) (rest : Except LuaError (Option Bool) × Wand) :
    Except LuaError (Option Bool) × Wand :=
  match guard with
  | .error raised => (.error raised, wand)
  | .ok true => (.ok (some false), wand)
  | .ok false => rest

theorem guard_run (guard : Except LuaError Bool) (width height : α) :
    (Exec.lift guard >>= fun leaves => if leaves = true then pure (some false) else do
      Wand.setSize magick (some width) (some height)
      pure none : Exec LuaError Wand (Option Bool)) wand = guarded wand guard (scaledTo magick wand width height id) := by
  have same : Wand.setSize magick (some width) (some height) wand = Wand.resize magick width height wand := rfl
  cases guard with
  | error raised => rfl
  | ok leaves =>
    cases leaves with
    | true => rfl
    | false =>
      simp only [Exec.bind_run, Exec.lift_run, Bool.false_eq_true, if_false, guarded, scaledTo, same, Wand.resize_run]
      cases magick.resizeImage (wand.image.width, wand.image.height) (toInt width) (toInt height) <;> rfl

theorem both_run {width height : α} (both : call.width = some width ∧ call.height = some height) :
    call.thumbnail4LargeImgs magick wand =
      guarded wand (call.small (ofInt wand.image.width) (ofInt wand.image.height))
        (let (mwidth, mheight) := Wand.box (ofInt wand.image.width) (ofInt wand.image.height) width height
        scaledTo magick wand mwidth mheight fun wand => (wand.placed magick width height).2) := by
  simp only [thumbnail4LargeImgs, Wand.size, Exec.bind_run, Exec.get_run, Exec.pure_run, Exec.lift_run, both.1, both.2,
    Wand.box]
  generalize (if lt (height / ofInt wand.image.height) (width / ofInt wand.image.width) = true then _
    else _ : α × α) = scaled
  obtain ⟨mwidth, mheight⟩ := scaled
  have same : Wand.setSize magick (some mwidth) (some mheight) wand = Wand.resize magick mwidth mheight wand := rfl
  cases call.small (ofInt wand.image.width : α) (ofInt wand.image.height) with
  | error raised => rfl
  | ok leaves =>
    cases leaves with
    | true => rfl
    | false =>
      simp only [Bool.false_eq_true, if_false, guarded, scaledTo, Exec.bind_run, same, Wand.resize_run, Exec.pure_run]
      cases magick.resizeImage (wand.image.width, wand.image.height) (toInt mwidth) (toInt mheight) with
      | none => rfl
      | some made =>
        simp only [Wand.placed, Exec.get_run]
        split <;> rfl

theorem width_run {width : α} (only : call.width = some width ∧ call.height = none) :
    call.thumbnail4LargeImgs magick wand = guarded wand (below (ofInt wand.image.width) call.widthLimit)
      (scaledTo magick wand width (ofInt wand.image.height * width / ofInt wand.image.width) id) := by
  simp only [thumbnail4LargeImgs, Wand.size, Exec.bind_run, Exec.get_run, Exec.pure_run, Exec.lift_run, only.1, only.2]
  exact guard_run ..

theorem height_run {height : α} (only : call.width = none ∧ call.height = some height) :
    call.thumbnail4LargeImgs magick wand = guarded wand (below (ofInt wand.image.height) call.heightLimit)
      (scaledTo magick wand (ofInt wand.image.width * height / ofInt wand.image.height) height id) := by
  simp only [thumbnail4LargeImgs, Wand.size, Exec.bind_run, Exec.get_run, Exec.pure_run, Exec.lift_run, only.1, only.2]
  exact guard_run ..

theorem neither_run (neither : call.width = none ∧ call.height = none) :
    call.thumbnail4LargeImgs magick wand =
      guarded wand (below (ofInt wand.image.height : α) call.heightLimit) (.error .arithmetic, wand) := by
  simp only [thumbnail4LargeImgs, Wand.size, Exec.bind_run, Exec.get_run, Exec.pure_run, Exec.lift_run, neither.1, neither.2]
  cases below (ofInt wand.image.height : α) call.heightLimit with
  | error raised => rfl
  | ok leaves => cases leaves <;> rfl

end
/-- The outcome of a run as `Image` has it. -/
def outcome : Except LuaError (Option Bool) × Wand → Except LuaError Image
  | (.ok _, wand) => .ok wand.image
  | (.error raised, _) => .error raised

theorem outcome_guarded (wand : Wand) (guard : Except LuaError Bool) (rest : Except LuaError (Option Bool) × Wand) :
    outcome (guarded wand guard rest) = guard.bind fun leaves => if leaves = true then .ok wand.image else outcome rest := by
  cases guard with
  | error raised => rfl
  | ok leaves => cases leaves <;> rfl

theorem outcome_scaledTo (magick : Magick) (wand : Wand) (width height : Number) (next : Wand → Wand) (after : Image → Image)
    (same : ∀ wand, (next wand).image = after wand.image) :
    outcome (scaledTo magick wand width height next) =
      (wand.image.setSize magick (some width) (some height)).map after := by
  rw [Wand.setSize_doubles, scaledTo]
  cases magick.resizeImage (wand.image.width, wand.image.height) (toInt width) (toInt height) with
  | none => rfl
  | some made => exact congrArg Except.ok (same _)

theorem below_doubles (side : Number) (limit : Option Number) : below side limit = ThumbnailServer.below side limit := by
  cases limit <;> rfl

/-- The picture on the canvas that was asked for. -/
def framed (magick : Magick) (width height : Number) (image : Image) : Image :=
  let (cwidth, cheight) := image.size
  if !Number.eq cwidth width || !Number.eq cheight height then
    image.extent magick width height ((width - cwidth) / 2) ((height - cheight) / 2)
  else image

theorem placed_image (magick : Magick) (width height : Number) (wand : Wand) :
    (wand.placed magick width height).2.image = framed magick width height wand.image :=
  (Prod.mk.inj (Except.ok.inj (Wand.placed_doubles magick wand width height))).2

theorem framed_run (magick : Magick) (width height : Number) (made : Except LuaError Image) :
    (do
      let image ← made
      if !Number.eq (.ofInt image.width) width || !Number.eq (.ofInt image.height) height then
        pure (image.extent magick width height ((width - .ofInt image.width) / 2) ((height - .ofInt image.height) / 2))
      else pure image) = made.map (framed magick width height) := by
  cases made with
  | error raised => rfl
  | ok image => exact (apply_ite Except.ok _ _ _).symm

/-- Over doubles the scaling is that of the server. -/
theorem thumbnail4LargeImgs_doubles (magick : Magick) (call : ResizeCall Number) (wand : Wand) :
    outcome (call.thumbnail4LargeImgs magick wand) =
      ThumbnailServer.thumbnail4LargeImgs magick wand.image call.width call.height call.widthLimit call.heightLimit := by
  cases shapeWidth : call.width with
  | none =>
    cases shapeHeight : call.height with
    | none =>
      rw [neither_run magick call wand ⟨shapeWidth, shapeHeight⟩, outcome_guarded, below_doubles]
      rfl
    | some height =>
      rw [height_run magick call wand ⟨shapeWidth, shapeHeight⟩, outcome_guarded,
        outcome_scaledTo magick wand _ _ id id fun _ => rfl, Except.map_id, below_doubles]
      rfl
  | some width =>
    cases shapeHeight : call.height with
    | none =>
      rw [width_run magick call wand ⟨shapeWidth, shapeHeight⟩, outcome_guarded,
        outcome_scaledTo magick wand _ _ id id fun _ => rfl, Except.map_id, below_doubles]
      rfl
    | some height =>
      rw [both_run magick call wand ⟨shapeWidth, shapeHeight⟩, outcome_guarded, small]
      rw [outcome_scaledTo magick wand _ _ _ (framed magick width height) (placed_image magick width height)]
      have height_double : (ofInt wand.image.height : Number) = .ofInt wand.image.height := rfl
      simp only [ThumbnailServer.thumbnail4LargeImgs, Image.size, below_doubles, height_double]
      cases ThumbnailServer.below (.ofInt wand.image.width) call.widthLimit with
      | error raised => rfl
      | ok narrow =>
        cases narrow with
        | false => exact (framed_run ..).symm
        | true =>
          cases ThumbnailServer.below (.ofInt wand.image.height) call.heightLimit with
          | error raised => rfl
          | ok low =>
            cases low with
            | false => exact (framed_run ..).symm
            | true => rfl

theorem lift_outcome (run : Except LuaError (Option Bool) × Wand) (next : Image → Processing β) :
    (Exec.lift (outcome run) >>= next) = (Exec.lift run.1 >>= fun _ => next run.2.image) := by
  obtain ⟨result, wand⟩ := run
  cases result <;> rfl

/-- Over doubles it is the function of the server. -/
theorem resizeImage_doubles (host : Host) (self : ImageProcessor) (info : ThumbInfo) :
    (self.call info).resizeImage host = ThumbnailServer.resizeImage host self info := by
  have sizes : (self.call info).sizeStr = ImageServer.sizeStr info.width info.height := by
    simp [sizeStr, ImageProcessor.call, Written.number]
  have message : (self.call info).thumbnailMessage = ThumbnailServer.thumbnailMessage self info := by
    simp [thumbnailMessage, ThumbnailServer.thumbnailMessage, ImageProcessor.call, Written.number]
  have scaled (image : Image) : ThumbnailServer.thumbnail4LargeImgs host.magick image info.width info.height self.widthLimit
      self.heightLimit = outcome ((self.call info).thumbnail4LargeImgs host.magick ⟨image, []⟩) :=
    (thumbnail4LargeImgs_doubles host.magick (self.call info) ⟨image, []⟩).symm
  simp only [resizeImage, ThumbnailServer.resizeImage, sizes, message, scaled, lift_outcome]
  rfl

section Saved
variable {α : Type} {host : Host} {call : ResizeCall α} {world after : World}

/-- The picture as it is read. -/
def source (call : ResizeCall α) (width height : ℤ) : Wand := ⟨⟨call.sourceImageName, width, height, 0, 0, width, height, []⟩, []⟩

theorem new_source {magick : Magick} {image : Image} (loaded : Image.new magick (some call.sourceImageName) = .ok image) :
    ∃ cwidth cheight, magick.readImage call.sourceImageName = some (cwidth, cheight) ∧
      (⟨image, []⟩ : Wand) = call.source cwidth cheight := by
  cases read : magick.readImage call.sourceImageName with
  | none =>
    simp only [Image.new, Image.load, read] at loaded
    cases loaded
  | some size =>
    simp only [Image.new, Image.load, read] at loaded
    exact ⟨size.1, size.2, rfl, by rw [← Except.ok.inj loaded, source]⟩

theorem save_files {image : Image} {path : Bytes} (saved : image.save host path world = (.ok (), after)) :
    after.files = Function.update world.files path (some (.thumbnail image)) := by
  unfold Image.save at saved
  split at saved
  · rw [← (Prod.mk.inj saved).2]
  · cases saved

variable [Written α]

/-- Telling the other server about the picture leaves the files alone. -/
theorem told_keeps {successFlag value : Bool}
    (done : (if (call.sendMessageFlag && successFlag) = true then do
        let jsonMsg ← Exec.lift (host.encode call.thumbnailMessage)
        sendMessage host jsonMsg call.serverUrl
        pure successFlag
      else pure successFlag : Processing Bool) world = (.ok value, after)) :
    value = successFlag ∧ after.files = world.files := by
  split at done
  · obtain ⟨jsonMsg, between, encoded, done⟩ := Exec.ok_of_bind done
    obtain rfl : world = between := (Prod.mk.inj encoded).2
    obtain ⟨_, sent, told, done⟩ := Exec.ok_of_bind done
    obtain ⟨same, rfl⟩ := Prod.mk.inj done
    have kept := (sendMessage_keeps host jsonMsg call.serverUrl world).1
    rw [told] at kept
    exact ⟨(Except.ok.inj same).symm, kept⟩
  · obtain ⟨same, rfl⟩ := Prod.mk.inj done
    exact ⟨(Except.ok.inj same).symm, rfl⟩

variable [Arithmetic α]

/-- A run that returns true has saved what the scaling left. -/
theorem resizeImage_saves (done : call.resizeImage host world = (.ok true, after)) :
    ∃ cwidth cheight result wand, host.magick.readImage call.sourceImageName = some (cwidth, cheight) ∧
      call.thumbnail4LargeImgs host.magick (call.source cwidth cheight) = (.ok result, wand) ∧
      after.files call.targetImageName = some (.thumbnail wand.image) := by
  obtain ⟨_, _, read, done⟩ := Exec.ok_of_bind done
  cases read
  split at done
  · cases done
  · obtain ⟨image, between, loaded, done⟩ := Exec.ok_of_bind done
    obtain ⟨made, same⟩ := Prod.mk.inj loaded
    subst same
    dsimp only at done
    split at done
    · obtain ⟨result, between, scaled, done⟩ := Exec.ok_of_bind done
      obtain ⟨run, same⟩ := Prod.mk.inj scaled
      subst same
      obtain ⟨_, between, saved, done⟩ := Exec.ok_of_bind done
      obtain ⟨-, kept⟩ := told_keeps done
      obtain ⟨cwidth, cheight, read, shape⟩ := new_source made
      rw [shape] at run saved
      refine ⟨cwidth, cheight, result, _, read, Prod.ext run rfl, ?_⟩
      rw [kept, save_files saved]
      exact Function.update_self ..
    · exact absurd (told_keeps done).1 (by decide)

end Saved

/-- Both sides of the picture are below the limits. -/
def Small (call : ResizeCall ℚ) (cwidth cheight : ℤ) : Prop := ∃ widthLimit heightLimit,
  call.widthLimit = some widthLimit ∧ call.heightLimit = some heightLimit ∧ cwidth < widthLimit ∧ cheight < heightLimit

theorem small_iff {call : ResizeCall ℚ} {cwidth cheight : ℤ} :
    call.small (cwidth : ℚ) cheight = .ok true ↔ call.Small cwidth cheight := by
  unfold small Small
  cases call.widthLimit with
  | none => simp [below, bind, Except.bind]
  | some widthLimit =>
    by_cases narrow : (cwidth : ℚ) < widthLimit
    · cases call.heightLimit with
      | none => simp [below, lt, narrow, bind, Except.bind]
      | some heightLimit => simp [below, lt, narrow, bind, Except.bind]
    · simp [below, lt, narrow, bind, Except.bind, pure, Except.pure]

theorem truncate_nat (value : ℕ) : truncate (value : ℚ) = value := truncate_int value

theorem eq_exact {side : ℤ} {value : ℕ} : eq (ofInt side : ℚ) (value : ℚ) = true ↔ side = value := by
  change decide ((side : ℚ) = ((value : ℤ) : ℚ)) = true ↔ _
  rw [decide_eq_true_iff, Int.cast_inj]

/-- The sides of a request are whole, so the canvas has them without a rest. -/
theorem placed_exact {magick : Magick} (obeys : magick.Obeys) (wand : Wand) (width height : ℕ) :
    (wand.placed magick (width : ℚ) height).2.image.width = width ∧
      (wand.placed magick (width : ℚ) height).2.image.height = height := by
  have across : toInt (width : ℚ) = width := truncate_nat width
  have down : toInt (height : ℚ) = height := truncate_nat height
  simp only [Wand.placed, Wand.extent, Exec.modify_run, across, down, obeys.canvases, if_true]
  split
  next => exact ⟨rfl, rfl⟩
  next same =>
    rw [Bool.or_eq_true, not_or, Bool.not_eq_true', Bool.not_eq_true', Bool.not_eq_false, Bool.not_eq_false] at same
    exact ⟨eq_exact.mp same.1, eq_exact.mp same.2⟩

theorem scaled_exact {magick : Magick} (obeys : magick.Obeys) {call : ResizeCall ℚ} {width height : ℕ}
    (both : call.width = some (width : ℚ) ∧ call.height = some (height : ℚ)) {wand after : Wand} {result : Option Bool}
    (done : call.thumbnail4LargeImgs magick wand = (.ok result, after)) :
    (call.Small wand.image.width wand.image.height → after = wand) ∧
      (¬ call.Small wand.image.width wand.image.height → after.image.width = width ∧ after.image.height = height) := by
  rw [both_run magick call wand both] at done
  rw [← small_iff]
  unfold guarded at done
  split at done
  next => cases done
  next small =>
    obtain ⟨-, rfl⟩ := Prod.mk.inj done
    exact ⟨fun _ => rfl, fun large => absurd small large⟩
  next large =>
    refine ⟨fun small => ?_, fun _ => ?_⟩
    · cases large.symm.trans small
    · unfold scaledTo at done
      generalize Wand.box (ofInt wand.image.width) (ofInt wand.image.height) (width : ℚ) height = size at done
      dsimp only at done
      split at done
      · cases done
      · obtain ⟨-, rfl⟩ := Prod.mk.inj done
        exact placed_exact obeys _ width height

/-- A request with both sides gets a picture of just that size, unless the source is small. Then it is
saved as it is. -/
theorem saved_exactly {host : Host} (obeys : host.magick.Obeys) {call : ResizeCall ℚ} {width height : ℕ}
    (both : call.width = some (width : ℚ) ∧ call.height = some (height : ℚ)) {world after : World}
    (done : call.resizeImage host world = (.ok true, after)) :
    ∃ cwidth cheight image, host.magick.readImage call.sourceImageName = some (cwidth, cheight) ∧
      after.files call.targetImageName = some (.thumbnail image) ∧
      (call.Small cwidth cheight → image.width = cwidth ∧ image.height = cheight) ∧
      (¬ call.Small cwidth cheight → image.width = width ∧ image.height = height) := by
  obtain ⟨cwidth, cheight, result, wand, read, scaled, saved⟩ := resizeImage_saves done
  obtain ⟨small, large⟩ := scaled_exact obeys both scaled
  refine ⟨cwidth, cheight, wand.image, read, saved, fun least => ?_, large⟩
  rw [small least]
  exact ⟨rfl, rfl⟩

/-- A request for 400 by 400 with the limits of the configuration. -/
def call400 : ResizeCall ℚ where
  sourceImageName := bytes "/www/images/public/upload/a.jpg"
  targetImageName := bytes "/www/images/public/thumbnail/upload/a_400_400.jpg"
  width := some (400 : ℕ)
  height := some (400 : ℕ)
  permitedSizes := ThumbnailServer.permitedSizes
  sendMessageFlag := true
  serverUrl := bytes "tcp://localhost:5555"
  widthLimit := some 480
  heightLimit := some 1000
  originalImagesRoot := bytes "/www/images/public/"
  thumbnailImagesRoot := bytes "/www/images/public/thumbnail/"

def uploadedWorld : World where
  files path := if path = call400.sourceImageName then some (.uploaded []) else none
  executed := []
  sent := []

theorem obliging_obeys (width height : ℤ) : (Host.removing width height).magick.Obeys :=
  ⟨fun made => (Option.some.inj made).symm, fun _ _ _ _ => rfl⟩

theorem saved_exactly_400 :
    ∃ image, (call400.resizeImage (.removing 1000 800) uploadedWorld).2.files call400.targetImageName =
      some (.thumbnail image) ∧ image.width = 400 ∧ image.height = 400 := by
  have done : (call400.resizeImage (.removing 1000 800) uploadedWorld).1 = .ok true := by decide +kernel
  obtain ⟨cwidth, cheight, image, read, saved, -, large⟩ :=
    saved_exactly (obliging_obeys 1000 800) ⟨rfl, rfl⟩ (Prod.ext done rfl)
  obtain ⟨rfl, rfl⟩ := Prod.mk.inj (Option.some.inj read)
  refine ⟨image, saved, large fun small => ?_⟩
  obtain ⟨widthLimit, _, limit, -, narrow, -⟩ := small
  obtain rfl := Option.some.inj limit
  exact absurd narrow (by norm_num)

/-- A picture of 300 by 200 is saved as the one of 400 by 400. -/
theorem small_saved_unscaled : (Host.removing 300 200).magick.Obeys ∧
    (call400.resizeImage (.removing 300 200) uploadedWorld).1 = .ok true ∧
    ∃ image, (call400.resizeImage (.removing 300 200) uploadedWorld).2.files call400.targetImageName =
      some (.thumbnail image) ∧ ¬ (image.width = 400 ∧ image.height = 400) := by
  refine ⟨obliging_obeys 300 200, by decide +kernel, ⟨call400.sourceImageName, 300, 200, 0, 0, 300, 200, []⟩, ?_, ?_⟩
  · decide +kernel
  · decide

end ResizeCall
end ThumbnailServer
end ImageServer
