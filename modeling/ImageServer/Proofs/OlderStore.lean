import ImageServer.Proofs.GalleryImages
import ImageServer.Proofs.Generation
import ImageServer.Proofs.ShellCommands
import ImageServer.WriteOnce

/-! The thumbnail store of the older server over whole runs. Its thumbnails lie inside of the folder of
the originals, and still no file is ever changed, and a thumbnail that is there is the rendering of
exactly the request that finds it. -/

namespace ImageServer.ThumbnailServer
open WriteOnce

/-- A picture that the request for a size of a source can be answered with. -/
def Renders (self : ImageProcessor) (source : Bytes) (width height : Option Number) (image : Image) : Prop :=
  ∃ magick picture, Image.new magick (some source) = .ok picture ∧
    thumbnail4LargeImgs magick picture width height self.widthLimit self.heightLimit = .ok image

theorem resizeImage_made (host : Host) (self : ImageProcessor) (info : ThumbInfo) (world : World) :
    (resizeImage host self info world).2.files = world.files ∨
      (isFileExists world.files info.sourceImageName = true ∧ sizeStr info.width info.height ∈ self.permitedSizes ∧
        ∃ image, Renders self info.sourceImageName info.width info.height image ∧
          (resizeImage host self info world).2.files =
            Function.update world.files info.targetImageName (some (.thumbnail image))) := by
  have finished (flag : Bool) (middle : World) : ((if (self.sendMessageFlag && flag) = true then do
      let jsonMsg ← Exec.lift (host.encode (thumbnailMessage self info))
      sendMessage host jsonMsg self.serverUrl
      pure flag else pure flag : Processing Bool) middle).2.files = middle.files :=
    @finish_within host (fun before after => after.files = before.files) (fun _ => rfl)
      (fun first second => Eq.trans second first) (fun message serverUrl world => (sendMessage_keeps host message serverUrl world).1)
      self info flag middle
  simp only [resizeImage, Exec.bind_run, Exec.get_run]
  cases source : isFileExists world.files info.sourceImageName with
  | false => exact Or.inl rfl
  | true =>
    simp only [Bool.not_true, Bool.false_eq_true, if_false, Exec.bind_run, Exec.lift_run]
    cases loaded : Image.new host.magick (some info.sourceImageName) with
    | error raised => exact Or.inl rfl
    | ok picture =>
      simp only
      split
      next permitted =>
        simp only [Exec.bind_run, Exec.lift_run]
        cases resized : thumbnail4LargeImgs host.magick picture info.width info.height self.widthLimit self.heightLimit with
        | error raised => exact Or.inl rfl
        | ok image =>
          cases wrote : host.magick.writeImage info.targetImageName with
          | false =>
            simp only [Image.save, wrote, Bool.false_eq_true, if_false, Exec.raise_run]
            exact Or.inl trivial
          | true =>
            simp only [Image.save, wrote, if_true, Exec.modify_run, Exec.pure_run]
            exact Or.inr ⟨trivial, permitted, image, ⟨host.magick, picture, loaded, resized⟩, finished true _⟩
      next => exact Or.inl (finished false world)

/-- A thumbnail of a permitted size whose source is there. -/
def Thumbnailed (self : ImageProcessor) : Maker Bytes File := fun files path file =>
  ∃ (request : SizedRequest) (image : Image), let info := request.info self files
    path = info.targetImageName ∧ file = .thumbnail image ∧ isFileExists files info.sourceImageName = true ∧
      sizeStr info.width info.height ∈ self.permitedSizes ∧
      Renders self info.sourceImageName info.width info.height image

theorem thumbnailed_lasting (self : ImageProcessor) : (Thumbnailed self).Lasting := by
  rintro before after kept path file ⟨request, image, target, same, there, rest⟩
  refine ⟨request, image, target, same, ?_, rest⟩
  obtain ⟨found, first⟩ := Option.isSome_iff_exists.mp there
  exact Option.isSome_iff_exists.mpr ⟨found, kept _ _ first⟩

def serve (self : ImageProcessor) (world : World) (call : Host × Bytes) : World :=
  (resolveImageURI call.1 self call.2 world).2

/-- If the call comes to the command line, the line makes directories. -/
def Inert (self : ImageProcessor) (world : World) (call : Host × Bytes) : Prop :=
  ∀ info, self.extractThumbInfo world.files call.2 = some info → info.targetFileExists = false →
    MakesFolders (mkdirLine info)

theorem serve_adds {self : ImageProcessor} {world : World} {call : Host × Bytes} (inert : Inert self world call) :
    Adds (Thumbnailed self) world.files (serve self world call).files := by
  obtain ⟨host, path⟩ := call
  cases accepted : self.extractThumbInfo world.files path with
  | none =>
    refine .nothing ?_
    simp only [serve, resolveImageURI, Exec.bind_run, Exec.get_run, accepted, Exec.pure_run]
  | some info =>
    obtain ⟨told, ⟨files, -⟩, run⟩ := @resolveImageURI_told host _ _ _ _ accepted
    simp only [serve, run]
    cases absent : info.targetFileExists with
    | true =>
      refine .nothing ?_
      rw [generateAndAnswer_present absent, files]
    | false =>
      have kept : (mkdirs host info.targetFolder told).2.files = world.files :=
        (host.mkdir_keeps (mkdirLine info) told.files (inert info accepted absent)).trans files
      have made := resizeImage_made host self info (mkdirs host info.targetFolder told).2
      rw [generateAndAnswer_absent absent]
      rw [kept] at made
      obtain ⟨request, rfl⟩ := extractThumbInfo_some accepted
      rcases made with same | ⟨source, permitted, image, renders, saved⟩
      · exact .nothing same
      · refine .entry _ _ ?_ ⟨request, image, rfl, rfl, source, permitted, renders⟩ saved
        simpa [SizedRequest.info, isFileExists] using absent

/-- Whatever has happened before, a path whose directory reads as one word is inert. -/
theorem inert_of_folder {self : ImageProcessor} {path folder : Bytes} (host : Host) (world : World)
    (named : self.thumbnailImagesRoot ++
      appendPathSimbol2Tail (removePathSimbolAtHead (requestFolder path ImageProcessor.thumbPattern)) = folder)
    (makes : MakesFolders (bytes "mkdir -p " ++ folder)) : Inert self world (host, path) := by
  intro info accepted _
  have target : info.targetFolder = folder := (@Server.targetFolder_eq (.older self) _ _ _ accepted).trans named
  rw [mkdirLine, target]
  exact makes

end ImageServer.ThumbnailServer
