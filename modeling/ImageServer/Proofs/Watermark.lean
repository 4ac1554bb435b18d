import ImageServer.Proofs.Generation
import ImageServer.Thumbnail

/-! When a permitted thumbnail is made although every call of the library is a success. Only
the arithmetic of the watermarks can raise, on a side that was not asked for or on the side
that one branch of `thumbnail4LargeImgs` does not report. -/

namespace ImageServer

/-- Only a width is asked for, and the picture has hardly more than that. This is the branch
that fills the misspelt field. -/
def Narrow (cwidth : Int) (width height : Option Number) : Prop :=
  height = none ∧ ∃ mwidth, width = some mwidth ∧ Number.lt (.ofInt cwidth) (mwidth * .nearest (11 / 10)) = true

/-- The numbers that a watermark of one type is placed by are there. -/
def Placeable (waterMarkType : Option Int) (cwidth : Int) (width height : Option Number) : Prop :=
  (waterMarkType = some 6 → width.isSome ∧ height.isSome) ∧ (waterMarkType = some 1 → ¬ Narrow cwidth width height)

namespace Image
variable {magick : Magick}

theorem resize_succeeds (succeeds : magick.Succeeds) (image : Image) (width height : Number) :
    ∃ after, image.resize magick width height = .ok after := by
  obtain ⟨⟨rows, columns⟩, resized⟩ := Option.isSome_iff_exists.mp
    (succeeds.resizes (image.width, image.height) width.toInt height.toInt)
  simp [resize, resized]

theorem setSize_succeeds (succeeds : magick.Succeeds) (image : Image) (width height : Number) :
    ∃ after, image.setSize magick (some width) (some height) = .ok after :=
  resize_succeeds succeeds image width height

theorem addWaterMark_succeeds (succeeds : magick.Succeeds) (image : Image) (logo : Option Bytes) (x y : Number) :
    ∃ after, image.addWaterMark magick logo x y = .ok after := by
  have loads : ∃ mark, new magick logo = .ok mark := by
    cases logo with
    | none => exact ⟨_, rfl⟩
    | some path =>
      obtain ⟨size, read⟩ := Option.isSome_iff_exists.mp (succeeds.reads path)
      simp [new, load, read]
  obtain ⟨mark, loaded⟩ := loads
  refine ⟨{ image with marks := image.marks ++ [⟨logo, x.toInt, y.toInt⟩] }, ?_⟩
  unfold addWaterMark
  rw [loaded]
  simp [bind, Except.bind, succeeds.composites, pure, Except.pure]

/-- The thumbnail is made, and its height is missing from the report for a narrow picture only. -/
theorem thumbnail4LargeImgs_succeeds (succeeds : magick.Succeeds) (image : Image) {width height : Option Number}
    (sized : width.isSome ∨ height.isSome) :
    ∃ placement after, image.thumbnail4LargeImgs magick width height = .ok (placement, after) ∧
      placement.rwidth.isSome ∧ (placement.rheight = none ↔ Narrow image.width width height) := by
  have reported : image.size.1 = .ofInt image.width := rfl
  generalize size : image.size = dimensions at reported
  obtain ⟨cwidth, cheight⟩ := dimensions
  cases width with
  | some width =>
    cases height with
    | some height =>
      simp only [thumbnail4LargeImgs, size]
      generalize (if Number.lt (height / cheight) (width / cwidth) = true then _ else _ : Number × Number) = scaled
      obtain ⟨after, resized⟩ := setSize_succeeds succeeds image scaled.1 scaled.2
      simp only [resized, bind, Except.bind]
      exact ⟨_, _, rfl, rfl, by simp [Narrow]⟩
    | none =>
      obtain ⟨after, resized⟩ := setSize_succeeds succeeds image width (cheight * width / cwidth)
      by_cases narrow : Number.lt cwidth (width * .nearest (11 / 10)) = true
      · simp only [thumbnail4LargeImgs, size, narrow, if_true]
        exact ⟨_, _, rfl, rfl, by simpa [Narrow, ← reported] using narrow⟩
      · simp only [thumbnail4LargeImgs, size, narrow, resized, bind, Except.bind]
        exact ⟨_, _, rfl, rfl, by simpa [Narrow, ← reported] using narrow⟩
  | none =>
    cases height with
    | none => simp at sized
    | some height =>
      obtain ⟨after, resized⟩ := setSize_succeeds succeeds image (cwidth * height / cheight) height
      by_cases low : Number.lt cheight (height * .nearest (11 / 10)) = true
      · simp only [thumbnail4LargeImgs, size, low, if_true]
        exact ⟨_, _, rfl, rfl, by simp [Narrow]⟩
      · simp only [thumbnail4LargeImgs, size, low, resized, bind, Except.bind]
        exact ⟨_, _, rfl, rfl, by simp [Narrow]⟩

end Image
section
variable {magick : Magick}

theorem drawWaterMark_succeeds_iff (succeeds : magick.Succeeds) (image : Image) (logo : Option Bytes)
    (waterMarkType : Option Int) {rsize : Placement} (placed : rsize.rwidth.isSome) (width height : Option Number) :
    (∃ after, drawWaterMark magick image logo waterMarkType rsize width height = .ok after) ↔
      (waterMarkType = some 6 → width.isSome ∧ height.isSome) ∧ (waterMarkType = some 1 → rsize.rheight ≠ none) := by
  obtain ⟨rwidth, reported⟩ := Option.isSome_iff_exists.mp placed
  unfold drawWaterMark
  split
  next five => simp [five, Image.addWaterMark_succeeds succeeds]
  split
  next one =>
    cases height : rsize.rheight with
    | none => simp [one, reported]
    | some rheight => simp [one, reported, Image.addWaterMark_succeeds succeeds]
  next notOne =>
    split
    next six => cases width <;> cases height <;> simp [six, Image.addWaterMark_succeeds succeeds]
    next notSix => simp [notOne, notSix, pure, Except.pure]

theorem renderImage_succeeds_iff (succeeds : magick.Succeeds) (image : Image) {width height : Option Number}
    (sized : width.isSome ∨ height.isSome) (toGenWaterMark : Bool) (waterMarkConfig : Option WaterMarkKey)
    (logoPath : Option Bytes) :
    (∃ after, renderImage magick image width height toGenWaterMark waterMarkConfig logoPath = .ok after) ↔
      (toGenWaterMark = true → ∃ v, waterMarkConfig = some v ∧ Placeable v.waterMarkType image.width width height) := by
  obtain ⟨rsize, placed, thumbnail, reported, narrow⟩ := Image.thumbnail4LargeImgs_succeeds succeeds image sized
  unfold renderImage
  cases toGenWaterMark with
  | false => simp [thumbnail, bind, Except.bind, pure, Except.pure]
  | true =>
    cases waterMarkConfig with
    | none => simp
    | some v =>
      have drawn := drawWaterMark_succeeds_iff succeeds placed (v.logoPath.or logoPath) v.waterMarkType reported width height
      simpa [thumbnail, bind, Except.bind, Placeable, narrow] using drawn

end

/-- The watermark that `resolveImageURI` selects can be placed. -/
def WaterMarkFits (self : ImageProcessor) (info : ThumbInfo) (cwidth : Int) : Prop :=
  ∀ v, selectWaterMark self info = (true, some v) → Placeable v.waterMarkType cwidth info.width info.height

/-- If a message about the thumbnail is asked for, it can be encoded and sent. -/
def Reportable (host : Host) (self : ImageProcessor) (info : ThumbInfo) : Prop :=
  self.sendMessageFlag = true →
    ∃ message, host.encode (thumbnailMessage self info) = .ok message ∧ host.socket message = true

/-- The result is true and the target is a picture of the source. -/
def Delivers (host : Host) (self : ImageProcessor) (info : ThumbInfo) (world : World) : Prop :=
  let (result, after) := processImage host self info (selectWaterMark self info).1 (selectWaterMark self info).2 world
  result = .ok true ∧ ∃ image : Image, image.path = info.sourceImageName ∧
    after.files info.targetImageName = some (.thumbnail image)

theorem selectWaterMark_cases (self : ImageProcessor) (info : ThumbInfo) :
    selectWaterMark self info = (false, none) ∨ ∃ v, selectWaterMark self info = (true, some v) := by
  unfold selectWaterMark
  simp only
  split
  · split
    · exact Or.inr ⟨_, rfl⟩
    · exact Or.inl rfl
  · exact Or.inl rfl

theorem report_ok_iff (host : Host) (message : Message) (serverUrl : Bytes) (world : World) :
    (report host message serverUrl world).1 = .ok () ↔
      ∃ text, host.encode message = .ok text ∧ host.socket text = true := by
  simp only [report, Exec.bind_run, Exec.lift_run]
  cases encoded : host.encode message with
  | error raised => simp
  | ok text =>
    cases opened : host.socket text <;> simp [sendMessage, opened]

theorem notify_ok_iff (host : Host) (self : ImageProcessor) (info : ThumbInfo) (world : World) :
    ((if (self.sendMessageFlag && true) = true then do
        report host (thumbnailMessage self info) self.serverUrl
        pure true
      else pure true : Processing Bool) world).1 = .ok true ↔ Reportable host self info := by
  unfold Reportable
  cases self.sendMessageFlag with
  | false => simp
  | true =>
    have sent := report_ok_iff host (thumbnailMessage self info) self.serverUrl world
    simp only [Bool.and_self, if_true, Exec.bind_run, true_imp_iff, ← sent]
    cases outcome : report host (thumbnailMessage self info) self.serverUrl world with
    | mk result after => cases result <;> simp

/-- A permitted request succeeds exactly when the watermark that is selected for it can be
placed and the message that is asked for can be sent. -/
theorem processImage_delivers_iff (host : Host) (succeeds : host.magick.Succeeds) (self : ImageProcessor)
    (info : ThumbInfo) (world : World) (source : isFileExists world.files info.sourceImageName = true)
    {cwidth cheight : Int} (picture : host.magick.readImage info.sourceImageName = some (cwidth, cheight))
    (sized : info.width.isSome ∨ info.height.isSome) (permitted : sizeStr info.width info.height ∈ self.permitedSizes) :
    Delivers host self info world ↔ WaterMarkFits self info cwidth ∧ Reportable host self info := by
  have loaded : Image.new host.magick (some info.sourceImageName) =
      .ok ⟨info.sourceImageName, cwidth, cheight, 0, 0, cwidth, cheight, []⟩ := by
    simp [Image.new, Image.load, picture]
  generalize image_eq : (⟨info.sourceImageName, cwidth, cheight, 0, 0, cwidth, cheight, []⟩ : Image) = image at loaded
  have fits : (∃ after, renderImage host.magick image info.width info.height (selectWaterMark self info).1
      (selectWaterMark self info).2 self.logoPath = .ok after) ↔ WaterMarkFits self info cwidth := by
    rw [renderImage_succeeds_iff succeeds image sized]
    subst image
    rcases selectWaterMark_cases self info with none | ⟨v, selected⟩
    · simp [WaterMarkFits, none]
    · simp [WaterMarkFits, selected]
  rw [← fits]
  simp only [Delivers, processImage, Exec.bind_run, Exec.get_run, source, Bool.not_true, Bool.false_eq_true, if_false,
    Exec.lift_run, loaded, permitted, if_true, mkdirs, execute, Exec.modify_run]
  cases rendered : renderImage host.magick image info.width info.height (selectWaterMark self info).1
      (selectWaterMark self info).2 self.logoPath with
  | error raised => simp
  | ok made =>
    have path : made.path = info.sourceImageName := by
      rw [renderImage_path rendered, ← image_eq]
    simp only [Image.save, succeeds.writes, if_true, Exec.modify_run, Exec.pure_run]
    constructor
    · intro holds
      obtain ⟨done, -⟩ := holds
      exact ⟨⟨made, rfl⟩, (notify_ok_iff ..).mp done⟩
    · intro holds
      obtain ⟨-, reportable⟩ := holds
      refine ⟨(notify_ok_iff ..).mpr reportable, made, path, ?_⟩
      rw [(notify_untouched host (thumbnailMessage self info) self.serverUrl _ true _).files]
      exact Function.update_self ..

/-- A square thumbnail of a supplier's picture is delivered with the watermark in its middle. -/
theorem square_watermark_delivered :
    let world := uploads [bytes "/www/target/images/public/upload/supplier-1/a.jpg"]
    ∃ info, Thumbnail.processor.extractThumbInfo world.files (bytes "/upload/supplier-1/a.600x600.jpg") = some info ∧
      Delivers (.removing 1000 800) Thumbnail.processor info world := by
  intro world
  have checked : (Thumbnail.processor.extractThumbInfo world.files (bytes "/upload/supplier-1/a.600x600.jpg")).any
      (fun info => isFileExists world.files info.sourceImageName && info.width.isSome && info.height.isSome &&
        decide (sizeStr info.width info.height ∈ Thumbnail.processor.permitedSizes)) = true := by decide +kernel
  obtain ⟨info, accepted, facts⟩ := (Option.any_eq_true _ _).mp checked
  simp only [Bool.and_eq_true, decide_eq_true_eq] at facts
  obtain ⟨⟨⟨source, width⟩, height⟩, permitted⟩ := facts
  refine ⟨info, accepted, (processImage_delivers_iff (.removing 1000 800) (Magick.obliging_succeeds 1000 800)
    Thumbnail.processor info world source rfl (Or.inl width) permitted).mpr ⟨?_, ?_⟩⟩
  · exact fun v _ => ⟨fun _ => ⟨width, height⟩, fun _ narrow => by simp [narrow.1] at height⟩
  · intro asked
    cases asked

/-- A permitted width without a height: the watermark halves the height that is not there. -/
theorem wide_watermark_raises :
    let world := uploads [bytes "/www/target/images/public/upload/supplier-1/a.jpg"]
    ∃ info, Thumbnail.processor.extractThumbInfo world.files (bytes "/upload/supplier-1/a.600x0.jpg") = some info ∧
      (Host.removing 1000 800).magick.Succeeds ∧ isFileExists world.files info.sourceImageName = true ∧
      info.width = some 600 ∧ sizeStr info.width info.height ∈ Thumbnail.processor.permitedSizes ∧
      ¬ Delivers (.removing 1000 800) Thumbnail.processor info world := by
  intro world
  have checked : (Thumbnail.processor.extractThumbInfo world.files (bytes "/upload/supplier-1/a.600x0.jpg")).any
      (fun info => isFileExists world.files info.sourceImageName && decide (info.width = some 600) &&
        decide (sizeStr info.width info.height ∈ Thumbnail.processor.permitedSizes) &&
        decide ((processImage (.removing 1000 800) Thumbnail.processor info
          (selectWaterMark Thumbnail.processor info).1 (selectWaterMark Thumbnail.processor info).2 world).1 =
            .error .arithmetic)) = true := by decide +kernel
  obtain ⟨info, accepted, facts⟩ := (Option.any_eq_true _ _).mp checked
  simp only [Bool.and_eq_true, decide_eq_true_eq] at facts
  obtain ⟨⟨⟨source, width⟩, permitted⟩, raised⟩ := facts
  refine ⟨info, accepted, Magick.obliging_succeeds 1000 800, source, width, permitted, ?_⟩
  intro holds
  obtain ⟨done, -⟩ := holds
  cases done.symm.trans raised

end ImageServer
