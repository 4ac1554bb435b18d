import ImageServer.Proofs.ThumbInfo
import ImageServer.Proofs.Watermark

/-! What a call answers. The flag that `processImage` returns is dropped, and the messages are
sent where a failure can still be seen: one before the protected call, one inside of it. -/

namespace ImageServer

structure Saves (host : Host) (processor : ImageProcessor) (files : Files) (info : ThumbInfo) : Prop
    extends Generates host processor files info where
  renders : ∃ image picture, Image.new host.magick (some info.sourceImageName) = .ok image ∧
    renderImage host.magick image info.width info.height (selectWaterMark processor info).1
      (selectWaterMark processor info).2 processor.logoPath = .ok picture
  writes : host.magick.writeImage info.targetImageName = true

/-- `processImage` gives up without an error. -/
def Declines (host : Host) (self : ImageProcessor) (files : Files) (info : ThumbInfo) : Prop :=
  isFileExists files info.sourceImageName = false ∨
    ((host.magick.readImage info.sourceImageName).isSome ∧ sizeStr info.width info.height ∉ self.permitedSizes)

/-- If a message about the request is asked for, it can be encoded and sent. -/
def Announces (host : Host) (self : ImageProcessor) (oriRequestPath : Bytes) : Prop :=
  self.sendMessageFlag4EveryReq = true →
    ∃ message, host.encode (requestMessage oriRequestPath) = .ok message ∧ host.socket message = true

theorem Generates.not_declines {host : Host} {self : ImageProcessor} {files : Files} {info : ThumbInfo}
    (generates : Generates host self files info) : ¬ Declines host self files info := by
  rintro (missing | ⟨-, refused⟩)
  · cases generates.source.symm.trans missing
  · exact refused generates.permitted

/-- Everything that `processImage` can do for a request. -/
inductive Processed (host : Host) (self : ImageProcessor) (info : ThumbInfo) (before : World) :
    Except LuaError Bool × World → Prop
  | declined {after} : Declines host self before.files info → after.files = before.files →
      Processed host self info before (.ok false, after)
  | saved {after} : Saves host self before.files info → Reportable host self info →
      isFileExists after.files info.targetImageName = true → Processed host self info before (.ok true, after)
  | unsent {failure after} : Saves host self before.files info → ¬ Reportable host self info →
      Processed host self info before (.error failure, after)
  | raised {failure after} : ¬ Declines host self before.files info → ¬ Saves host self before.files info →
      after.files = before.files ∨
        (Generates host self before.files info ∧ after.files = host.shell (mkdirLine info) before.files) →
      Processed host self info before (.error failure, after)

theorem Image.new_error {magick : Magick} {path : Bytes} {raised : LuaError}
    (failed : new magick (some path) = .error raised) : magick.readImage path = none := by
  simp only [new, load] at failed
  split at failed
  · assumption
  · cases failed

/-- The message comes last, so its failure is an error after everything is done. -/
theorem Processed.notified {host : Host} {self : ImageProcessor} {info : ThumbInfo} {before middle : World}
    (saves : Saves host self before.files info) (stored : isFileExists middle.files info.targetImageName = true) :
    Processed host self info before ((if (self.sendMessageFlag && true) = true then do
        report host (thumbnailMessage self info) self.serverUrl
        pure true
      else pure true : Processing Bool) middle) := by
  cases asked : self.sendMessageFlag with
  | false => exact .saved saves (fun wanted => by cases asked.symm.trans wanted) stored
  | true =>
    have reported := report_ok_iff host (thumbnailMessage self info) self.serverUrl middle
    have untouched := report_untouched host (thumbnailMessage self info) self.serverUrl middle
    simp only [Bool.and_self, if_true, Exec.bind_run]
    cases sent : report host (thumbnailMessage self info) self.serverUrl middle with
    | mk result after =>
      rw [sent] at reported untouched
      cases result with
      | error raised =>
        apply Processed.unsent saves
        intro reportable
        cases reported.mpr (reportable asked)
      | ok _ =>
        apply Processed.saved saves (fun _ => reported.mp rfl)
        rw [show after.files = middle.files from untouched.files]
        exact stored

theorem processImage_processed (host : Host) (self : ImageProcessor) (info : ThumbInfo) (world : World) :
    Processed host self info world
      (processImage host self info (selectWaterMark self info).1 (selectWaterMark self info).2 world) := by
  simp only [processImage, Exec.bind_run, Exec.get_run]
  cases source : isFileExists world.files info.sourceImageName with
  | false => exact .declined (Or.inl source) rfl
  | true =>
    simp only [Bool.not_true, Bool.false_eq_true, if_false, Exec.bind_run, Exec.lift_run]
    cases loaded : Image.new host.magick (some info.sourceImageName) with
    | error raised =>
      have unreadable := Image.new_error loaded
      refine .raised ?_ ?_ (Or.inl rfl)
      · rintro (missing | ⟨readable, -⟩)
        · cases source.symm.trans missing
        · simp [unreadable] at readable
      · intro saves
        simpa [unreadable] using saves.picture
    | ok image =>
      simp only
      split
      next permitted =>
        have generates : Generates host self world.files info := ⟨source, Image.new_reads loaded, permitted⟩
        simp only [Exec.bind_run, mkdirs, execute, Exec.modify_run, Exec.lift_run]
        cases rendered : renderImage host.magick image info.width info.height (selectWaterMark self info).1
            (selectWaterMark self info).2 self.logoPath with
        | error raised =>
          refine .raised generates.not_declines ?_ (Or.inr ⟨generates, rfl⟩)
          intro holds
          obtain ⟨-, ⟨other, picture, again, made⟩, -⟩ := holds
          cases loaded.symm.trans again
          cases rendered.symm.trans made
        | ok picture =>
          cases wrote : host.magick.writeImage info.targetImageName with
          | false =>
            simp only [Image.save, wrote, Bool.false_eq_true, if_false, Exec.raise_run]
            refine .raised generates.not_declines ?_ (Or.inr ⟨generates, rfl⟩)
            intro saves
            cases wrote.symm.trans saves.writes
          | true =>
            simp only [Image.save, wrote, if_true, Exec.modify_run, Exec.pure_run]
            have saves : Saves host self world.files info := ⟨generates, ⟨image, picture, loaded, rendered⟩, wrote⟩
            exact Processed.notified saves (by simp [isFileExists])
      next refused =>
        have declines : Declines host self world.files info := Or.inr ⟨Image.new_reads loaded, refused⟩
        cases self.sendMessageFlag <;> exact .declined declines rfl

/-- The end of `processImage` after a save. -/
def notify (host : Host) (self : ImageProcessor) (info : ThumbInfo) : Processing Bool :=
  if self.sendMessageFlag && true then do
    report host (thumbnailMessage self info) self.serverUrl
    pure true
  else pure true

/-- What `processImage` comes to: no picture is saved and no message sent, or one picture is saved and the
message about it is left. -/
inductive Course (host : Host) (self : ImageProcessor) (info : ThumbInfo) (toGenWaterMark : Bool)
    (waterMarkConfig : Option WaterMarkKey) (before : World) : Except LuaError Bool × World → Prop
  | unsaved {result after}
      (files : after.files = before.files ∨
        Generates host self before.files info ∧ after.files = host.shell (mkdirLine info) before.files)
      (sent : after.sent = before.sent) : Course host self info toGenWaterMark waterMarkConfig before (result, after)
  | saved (picture image : Image) (middle : World) (generates : Generates host self before.files info)
      (loaded : Image.new host.magick (some info.sourceImageName) = .ok picture)
      (rendered : renderImage host.magick picture info.width info.height toGenWaterMark waterMarkConfig self.logoPath =
        .ok image)
      (files : middle.files =
        Function.update (host.shell (mkdirLine info) before.files) info.targetImageName (some (.thumbnail image)))
      (sent : middle.sent = before.sent) :
      Course host self info toGenWaterMark waterMarkConfig before (notify host self info middle)

theorem processImage_course (host : Host) (self : ImageProcessor) (info : ThumbInfo) (toGenWaterMark : Bool)
    (waterMarkConfig : Option WaterMarkKey) (world : World) :
    Course host self info toGenWaterMark waterMarkConfig world
      (processImage host self info toGenWaterMark waterMarkConfig world) := by
  simp only [processImage, Exec.bind_run, Exec.get_run]
  cases source : isFileExists world.files info.sourceImageName with
  | false => exact .unsaved (Or.inl rfl) rfl
  | true =>
    simp only [Bool.not_true, Bool.false_eq_true, if_false, Exec.bind_run, Exec.lift_run]
    cases loaded : Image.new host.magick (some info.sourceImageName) with
    | error raised => exact .unsaved (Or.inl rfl) rfl
    | ok picture =>
      simp only
      split
      next permitted =>
        have generates : Generates host self world.files info := ⟨source, Image.new_reads loaded, permitted⟩
        simp only [Exec.bind_run, mkdirs, execute, Exec.modify_run, Exec.lift_run]
        cases rendered : renderImage host.magick picture info.width info.height toGenWaterMark waterMarkConfig self.logoPath with
        | error raised => exact .unsaved (Or.inr ⟨generates, rfl⟩) rfl
        | ok image =>
          cases wrote : host.magick.writeImage info.targetImageName with
          | false =>
            simp only [Image.save, wrote, Bool.false_eq_true, if_false, Exec.raise_run]
            exact .unsaved (Or.inr ⟨generates, rfl⟩) rfl
          | true =>
            simp only [Image.save, wrote, if_true, Exec.modify_run, Exec.pure_run]
            exact .saved picture image _ generates loaded rendered rfl rfl
      next =>
        cases self.sendMessageFlag <;> exact .unsaved (Or.inl rfl) rfl

theorem generateAndAnswer_result (host : Host) (self : ImageProcessor) (info : ThumbInfo) (world : World) :
    let processed := processImage host self info (selectWaterMark self info).1 (selectWaterMark self info).2 world
    let uri := self.thumbnailLocation ++ info.requestImageName
    generateAndAnswer host self info world =
      if info.targetFileExists then (.ok (some uri), world)
      else match processed.1 with
        | .ok _ => (.ok (some uri), processed.2)
        | .error _ => (.ok none, processed.2) := by
  intro processed uri
  simp only [processed, uri, generateAndAnswer]
  cases info.targetFileExists with
  | true => rfl
  | false =>
    simp only [Bool.not_false, if_true, Exec.bind_run, Exec.pcall_run, Bool.false_eq_true, if_false]
    cases (processImage host self info (selectWaterMark self info).1 (selectWaterMark self info).2 world).1 <;> rfl

/-- The three ways to an answer that is not nil, and whether the file is there then. -/
theorem generateAndAnswer_answers (host : Host) (self : ImageProcessor) (info : ThumbInfo) (world : World) :
    let answered := generateAndAnswer host self info world
    let uri := self.thumbnailLocation ++ info.requestImageName
    (answered.1 = .ok (some uri) ∧ info.targetFileExists = true ∧ answered.2 = world) ∨
      (answered.1 = .ok (some uri) ∧ info.targetFileExists = false ∧ Declines host self world.files info ∧
        answered.2.files = world.files) ∨
      (answered.1 = .ok (some uri) ∧ info.targetFileExists = false ∧ Saves host self world.files info ∧
        Reportable host self info ∧ isFileExists answered.2.files info.targetImageName = true) ∨
      (answered.1 = .ok none ∧ info.targetFileExists = false ∧ ¬ Declines host self world.files info ∧
        ¬ (Saves host self world.files info ∧ Reportable host self info)) := by
  intro answered uri
  have result := generateAndAnswer_result host self info world
  have processed := processImage_processed host self info world
  simp only [answered, uri, result]
  cases info.targetFileExists with
  | true => exact Or.inl ⟨rfl, rfl, rfl⟩
  | false =>
    refine Or.inr ?_
    generalize processImage host self info (selectWaterMark self info).1 (selectWaterMark self info).2 world = outcome
      at processed
    cases processed with
    | declined declines same => exact Or.inl ⟨rfl, rfl, declines, same⟩
    | saved saves reportable stored => exact Or.inr (Or.inl ⟨rfl, rfl, saves, reportable, stored⟩)
    | unsent saves unsent =>
      exact Or.inr (Or.inr ⟨rfl, rfl, saves.toGenerates.not_declines, fun saved => unsent saved.2⟩)
    | raised kept unsaved _ => exact Or.inr (Or.inr ⟨rfl, rfl, kept, fun saved => unsaved saved.1⟩)

theorem resolveImageURI_refused {host : Host} {self : ImageProcessor} {oriRequestPath : Bytes} {world : World}
    (refused : self.extractThumbInfo world.files oriRequestPath = none) :
    resolveImageURI host self oriRequestPath world = (.ok none, world) := by
  simp [resolveImageURI, Exec.bind_run, refused]

/-- The message about the request comes before everything else, and outside of the protected call. -/
theorem resolveImageURI_accepted {host : Host} {self : ImageProcessor} {oriRequestPath : Bytes} {world : World}
    {info : ThumbInfo} (accepted : self.extractThumbInfo world.files oriRequestPath = some info) :
    (Announces host self oriRequestPath ∧ ∃ middle : World, middle.files = world.files ∧
        resolveImageURI host self oriRequestPath world = generateAndAnswer host self info middle) ∨
      (¬ Announces host self oriRequestPath ∧ ∃ raised after,
        resolveImageURI host self oriRequestPath world = (.error raised, after) ∧ after.files = world.files) := by
  have thumb : info.isThumbRequest = true := by
    obtain ⟨request, -, rfl⟩ := extractThumbInfo_some accepted
    rfl
  simp only [resolveImageURI, Exec.bind_run, Exec.get_run, accepted, thumb, Bool.not_true, Bool.false_eq_true,
    if_false, Announces]
  cases self.sendMessageFlag4EveryReq with
  | false => exact Or.inl ⟨fun on => absurd on Bool.false_ne_true, world, rfl, rfl⟩
  | true =>
    have reported := report_ok_iff host (requestMessage oriRequestPath) self.serverUrl world
    have untouched := report_untouched host (requestMessage oriRequestPath) self.serverUrl world
    simp only [if_true, Exec.bind_run, true_imp_iff, ← reported]
    cases sent : report host (requestMessage oriRequestPath) self.serverUrl world with
    | mk result middle =>
      rw [sent] at untouched
      cases result with
      | error raised => exact Or.inr ⟨by simp, raised, middle, rfl, untouched.files⟩
      | ok _ => exact Or.inl ⟨rfl, middle, untouched.files, rfl⟩

/-- A call that makes no thumbnail leaves the files to the command line. -/
theorem resolveImageURI_unsaved {host : Host} {self : ImageProcessor} {oriRequestPath : Bytes} {world : World}
    (unsaved : ∀ info, self.extractThumbInfo world.files oriRequestPath = some info → info.targetFileExists = false →
      ¬ Saves host self world.files info) :
    let after := (resolveImageURI host self oriRequestPath world).2
    after.files = world.files ∨ ∃ info, self.extractThumbInfo world.files oriRequestPath = some info ∧
      info.targetFileExists = false ∧ Generates host self world.files info ∧
      after.files = host.shell (mkdirLine info) world.files := by
  intro after
  cases accepted : self.extractThumbInfo world.files oriRequestPath with
  | none =>
    refine Or.inl ?_
    simp only [after]
    rw [resolveImageURI_refused accepted]
  | some info =>
    rcases @resolveImageURI_accepted host _ _ _ _ accepted with ⟨-, middle, same, rest⟩ | ⟨-, raised, failed, done, kept⟩
    · simp only [after, rest, generateAndAnswer_result]
      cases absent : info.targetFileExists with
      | true => exact Or.inl same
      | false =>
        have processed := processImage_processed host self info middle
        have missed := unsaved info accepted absent
        simp only [Bool.false_eq_true, if_false]
        generalize processImage host self info (selectWaterMark self info).1 (selectWaterMark self info).2 middle = outcome
          at processed
        cases processed with
        | declined _ kept => exact Or.inl (kept.trans same)
        | saved saves => exact absurd (same ▸ saves) missed
        | unsent saves => exact absurd (same ▸ saves) missed
        | raised _ _ files =>
          rw [same] at files
          rcases files with kept | ⟨generates, moved⟩
          · exact Or.inl kept
          · exact Or.inr ⟨info, rfl, absent, generates, moved⟩
    · simp only [after, done]
      exact Or.inl kept

/-- The answer is nil, or it is the address of a thumbnail that is there after the call. -/
def NamesExisting (host : Host) (self : ImageProcessor) (oriRequestPath : Bytes) (world : World) : Prop :=
  let answered := resolveImageURI host self oriRequestPath world
  answered.1 = .ok none ∨ ∃ info, self.extractThumbInfo world.files oriRequestPath = some info ∧
    answered.1 = .ok (some (self.thumbnailLocation ++ info.requestImageName)) ∧
    isFileExists answered.2.files (self.thumbnailImagesRoot ++ info.requestImageName) = true

def ImageProcessor.silent (self : ImageProcessor) : ImageProcessor :=
  { self with sendMessageFlag := false, sendMessageFlag4EveryReq := false }

theorem saves_silent {host : Host} {self : ImageProcessor} {files : Files} {info : ThumbInfo} :
    Saves host self.silent files info ↔ Saves host self files info :=
  ⟨fun ⟨⟨source, picture, permitted⟩, renders, writes⟩ => ⟨⟨source, picture, permitted⟩, renders, writes⟩,
    fun ⟨⟨source, picture, permitted⟩, renders, writes⟩ => ⟨⟨source, picture, permitted⟩, renders, writes⟩⟩

def Given (host : Host) (self : ImageProcessor) (info : ThumbInfo) (files : Files) : Prop :=
  info.targetFileExists = true ∨ Declines host self files info ∨ (Saves host self files info ∧ Reportable host self info)

theorem generateAndAnswer_given (host : Host) (self : ImageProcessor) (info : ThumbInfo) (world : World) :
    (Given host self info world.files ∧
        (generateAndAnswer host self info world).1 = .ok (some (self.thumbnailLocation ++ info.requestImageName))) ∨
      (¬ Given host self info world.files ∧ (generateAndAnswer host self info world).1 = .ok none) := by
  rcases generateAndAnswer_answers host self info world with ⟨uri, there, -⟩ | ⟨uri, -, declines, -⟩ |
    ⟨uri, -, saves, reportable, -⟩ | ⟨nil, absent, proceeds, unsaved⟩
  · exact Or.inl ⟨Or.inl there, uri⟩
  · exact Or.inl ⟨Or.inr (Or.inl declines), uri⟩
  · exact Or.inl ⟨Or.inr (Or.inr ⟨saves, reportable⟩), uri⟩
  · refine Or.inr ⟨?_, nil⟩
    rintro (there | declines | saved)
    · cases absent.symm.trans there
    · exact proceeds declines
    · exact unsaved saved

theorem given_silent {host : Host} {self : ImageProcessor} {info : ThumbInfo} {files : Files} :
    Given host self.silent info files ↔
      info.targetFileExists = true ∨ Declines host self files info ∨ Saves host self files info := by
  have unreported : Reportable host self.silent info := (nomatch ·)
  simp only [Given, saves_silent, unreported, and_true]
  rfl

/-- Only the message about a thumbnail that was just saved can take an answer away. -/
theorem given_agrees_iff {host : Host} {self : ImageProcessor} {info : ThumbInfo} {files : Files} :
    (Given host self info files ↔ Given host self.silent info files) ↔
      (info.targetFileExists = false → Saves host self files info → Reportable host self info) := by
  rw [given_silent]
  constructor
  · intro agree absent saves
    rcases agree.mpr (Or.inr (Or.inr saves)) with there | declines | ⟨-, reportable⟩
    · cases absent.symm.trans there
    · exact absurd declines saves.toGenerates.not_declines
    · exact reportable
  · intro reports
    refine ⟨Or.imp_right (Or.imp_right And.left), ?_⟩
    rintro (there | declines | saves)
    · exact Or.inl there
    · exact Or.inr (Or.inl declines)
    · cases absent : info.targetFileExists with
      | true => exact Or.inl absent
      | false => exact Or.inr (Or.inr ⟨saves, reports absent saves⟩)

/-- The call raises nothing and answers what it answers without messages. -/
def Undisturbed (host : Host) (self : ImageProcessor) (oriRequestPath : Bytes) (world : World) : Prop :=
  (∃ answer, (resolveImageURI host self oriRequestPath world).1 = .ok answer) ∧
    (resolveImageURI host self oriRequestPath world).1 = (resolveImageURI host self.silent oriRequestPath world).1

/-- The messages leave an answer alone exactly when those that are sent get out. -/
theorem resolveImageURI_undisturbed_iff (host : Host) (self : ImageProcessor) (oriRequestPath : Bytes) (world : World) :
    Undisturbed host self oriRequestPath world ↔
      ∀ info, self.extractThumbInfo world.files oriRequestPath = some info →
        Announces host self oriRequestPath ∧
          (info.targetFileExists = false → Saves host self world.files info → Reportable host self info) := by
  cases accepted : self.extractThumbInfo world.files oriRequestPath with
  | none =>
    have refused : self.silent.extractThumbInfo world.files oriRequestPath = none := accepted
    simp [Undisturbed, resolveImageURI_refused accepted, resolveImageURI_refused refused]
  | some info =>
    have same : self.silent.extractThumbInfo world.files oriRequestPath = some info := accepted
    have quiet : Announces host self.silent oriRequestPath := (nomatch ·)
    simp only [Undisturbed, Option.some.injEq, forall_eq']
    rcases @resolveImageURI_accepted host _ _ _ _ same with ⟨-, still, stillFiles, rest⟩ | ⟨lost, -⟩
    · rcases @resolveImageURI_accepted host _ _ _ _ accepted with ⟨announces, middle, kept, loud⟩ |
        ⟨lost, raised, after, failed, -⟩
      · have sent := generateAndAnswer_given host self info middle
        have unsent := generateAndAnswer_given host self.silent info still
        rw [kept] at sent
        rw [stillFiles] at unsent
        rw [rest, loud]
        simp only [announces, true_and, ← given_agrees_iff]
        rcases sent with ⟨answers, uri⟩ | ⟨fails, nil⟩
        · rcases unsent with ⟨would, same⟩ | ⟨never, same⟩
          · rw [uri, same]
            exact iff_of_true ⟨⟨_, rfl⟩, rfl⟩ (iff_of_true answers would)
          · rw [uri, same]
            exact iff_of_false (by simp) fun agree => never (agree.mp answers)
        · rcases unsent with ⟨would, same⟩ | ⟨never, same⟩
          · rw [nil, same]
            exact iff_of_false (by simp) fun agree => fails (agree.mpr would)
          · rw [nil, same]
            exact iff_of_true ⟨⟨_, rfl⟩, rfl⟩ (iff_of_false fails never)
      · rw [failed]
        simp [lost]
    · exact absurd quiet lost

/-- Without a socket a thumbnail that was made is not found. -/
theorem closed_socket_hides_thumbnail :
    let self := ImageProcessor.new { Thumbnail.processorConfig with sendMessageFlag := true }
    let host := { Host.removing 1000 800 with socket := fun _ => false }
    ¬ Undisturbed host self (bytes "/p/a.100x100.jpg") (uploads [bytes "/www/target/images/public/p/a.jpg"]) := by
  intro self host holds
  obtain ⟨-, same⟩ := holds
  revert same
  decide +kernel

end ImageServer
