import ImageServer.ImageProcessor

/-! What generating one thumbnail can do: in memory the picture keeps the path that it was
read from, and in the world there is at most one command line and at most one new file. -/

namespace ImageServer

theorem ok_of_bind {ε α β : Type} {first : Except ε α} {next : α → Except ε β} {value : β}
    (done : (first >>= next) = .ok value) : ∃ middle, first = .ok middle ∧ next middle = .ok value := by
  cases first with
  | ok middle => exact ⟨middle, rfl, done⟩
  | error raised => cases done

namespace Image

theorem new_path {magick : Magick} {path : Bytes} {image : Image} (loaded : new magick (some path) = .ok image) :
    image.path = path := by
  simp only [new, load] at loaded
  split at loaded
  · cases loaded
  · cases loaded; rfl

theorem new_reads {magick : Magick} {path : Bytes} {image : Image} (loaded : new magick (some path) = .ok image) :
    (magick.readImage path).isSome := by
  simp only [new, load] at loaded
  split at loaded
  · cases loaded
  next found => simp [found]

theorem resize_path {magick : Magick} {image after : Image} {width height : Number}
    (done : image.resize magick width height = .ok after) : after.path = image.path := by
  unfold resize at done
  split at done
  · cases done
  · cases done; rfl

theorem setSize_path {magick : Magick} {image after : Image} {width height : Option Number}
    (done : image.setSize magick width height = .ok after) : after.path = image.path := by
  unfold setSize at done
  simp only at done
  split at done
  · exact resize_path done
  · split at done <;> exact resize_path done
  · split at done <;> exact resize_path done
  · cases done; rfl

theorem extent_path (magick : Magick) (image : Image) (width height leftPos topPos : Number) :
    (image.extent magick width height leftPos topPos).path = image.path := by
  unfold extent
  split <;> rfl

theorem thumbnail4LargeImgs_path {magick : Magick} {image after : Image} {width height : Option Number}
    {placement : Placement} (done : image.thumbnail4LargeImgs magick width height = .ok (placement, after)) :
    after.path = image.path := by
  unfold thumbnail4LargeImgs at done
  simp only at done
  split at done
  · obtain ⟨resized, sized, rest⟩ := ok_of_bind done
    cases rest
    split
    · rw [extent_path, setSize_path sized]
    · exact setSize_path sized
  · split at done
    · cases done; rfl
    · obtain ⟨resized, sized, rest⟩ := ok_of_bind done
      cases rest
      exact setSize_path sized
  · split at done
    · cases done; rfl
    · obtain ⟨resized, sized, rest⟩ := ok_of_bind done
      cases rest
      exact setSize_path sized
  · cases done

theorem addWaterMark_path {magick : Magick} {image after : Image} {logo : Option Bytes} {x y : Number}
    (done : image.addWaterMark magick logo x y = .ok after) : after.path = image.path := by
  unfold addWaterMark at done
  obtain ⟨mark, -, rest⟩ := ok_of_bind done
  split at rest <;> cases rest <;> rfl

end Image

theorem drawWaterMark_path {magick : Magick} {image after : Image} {logo : Option Bytes}
    {waterMarkType : Option Int} {rsize : Placement} {width height : Option Number}
    (done : drawWaterMark magick image logo waterMarkType rsize width height = .ok after) :
    after.path = image.path := by
  unfold drawWaterMark at done
  split at done
  · exact Image.addWaterMark_path done
  split at done
  · split at done
    · exact Image.addWaterMark_path done
    · cases done
  split at done
  · split at done
    · exact Image.addWaterMark_path done
    · cases done
  · cases done; rfl

theorem renderImage_path {magick : Magick} {image after : Image} {width height : Option Number}
    {toGenWaterMark : Bool} {waterMarkConfig : Option WaterMarkKey} {logoPath : Option Bytes}
    (done : renderImage magick image width height toGenWaterMark waterMarkConfig logoPath = .ok after) :
    after.path = image.path := by
  unfold renderImage at done
  split at done
  · split at done
    · cases done
    · obtain ⟨⟨rsize, placed⟩, thumbnail, drawn⟩ := ok_of_bind done
      rw [drawWaterMark_path drawn, Image.thumbnail4LargeImgs_path thumbnail]
  · obtain ⟨⟨rsize, placed⟩, thumbnail, rest⟩ := ok_of_bind done
    cases rest
    exact Image.thumbnail4LargeImgs_path thumbnail

def uploads (paths : List Bytes) : World where
  files path := if path ∈ paths then some (.uploaded path) else none
  executed := []
  sent := []

theorem uploads_absent {paths : List Bytes} {root : Bytes} (outside : ∀ path ∈ paths, ¬ root <+: path) :
    ∀ path, root <+: path → (uploads paths).files path = none := by
  intro path under
  have unlisted : path ∉ paths := fun listed => outside path listed under
  simp only [uploads, if_neg unlisted]

/-- What a call finds when it goes on to make a directory and a thumbnail. -/
structure Generates (host : Host) (processor : ImageProcessor) (files : Files) (info : ThumbInfo) : Prop where
  source : isFileExists files info.sourceImageName = true
  picture : (host.magick.readImage info.sourceImageName).isSome
  permitted : sizeStr info.width info.height ∈ processor.permitedSizes

def mkdirLine (info : ThumbInfo) : Bytes := bytes "mkdir -p " ++ info.targetFolder

/-- The directory is asked for, and then the thumbnail is saved or is not. -/
structure Generated (host : Host) (info : ThumbInfo) (before after : World) : Prop where
  executed : after.executed = before.executed ++ [mkdirLine info]
  files : after.files = host.shell (mkdirLine info) before.files ∨
    ∃ image : Image, image.path = info.sourceImageName ∧
      after.files = Function.update (host.shell (mkdirLine info) before.files) info.targetImageName
        (some (.thumbnail image))

structure Untouched (before after : World) : Prop where
  executed : after.executed = before.executed
  files : after.files = before.files

/-- Neither a socket nor the JSON library touches the files. -/
theorem sendMessage_untouched (host : Host) (message serverUrl : Bytes) (world : World) :
    Untouched world (sendMessage host message serverUrl world).2 := by
  unfold sendMessage
  split <;> exact ⟨rfl, rfl⟩

theorem report_untouched (host : Host) (message : Message) (serverUrl : Bytes) (world : World) :
    Untouched world (report host message serverUrl world).2 := by
  simp only [report, Exec.bind_run, Exec.lift_run]
  cases host.encode message with
  | error raised => exact ⟨rfl, rfl⟩
  | ok jsonMsg => exact sendMessage_untouched host jsonMsg serverUrl world

theorem notify_untouched {α : Type} (host : Host) (message : Message) (serverUrl : Bytes) (asked : Bool)
    (result : α) (world : World) :
    Untouched world ((if asked then do report host message serverUrl; pure result else pure result :
      Processing α) world).2 := by
  cases asked with
  | false => exact ⟨rfl, rfl⟩
  | true =>
    have sent := report_untouched host message serverUrl world
    simp only [if_true, Exec.bind_run]
    split <;> simp_all

theorem Generated.untouched {host : Host} {info : ThumbInfo} {before after later : World}
    (generated : Generated host info before after) (untouched : Untouched after later) :
    Generated host info before later :=
  ⟨untouched.executed.trans generated.executed, by rw [untouched.files]; exact generated.files⟩

theorem processImage_cases (host : Host) (self : ImageProcessor) (info : ThumbInfo) (toGenWaterMark : Bool)
    (waterMarkConfig : Option WaterMarkKey) (world : World) :
    let after := (processImage host self info toGenWaterMark waterMarkConfig world).2
    Untouched world after ∨ (Generates host self world.files info ∧ Generated host info world after) := by
  intro after
  simp only [after, processImage, Exec.bind_run, Exec.get_run]
  cases source : isFileExists world.files info.sourceImageName with
  | false => exact Or.inl ⟨rfl, rfl⟩
  | true =>
    simp only [Bool.not_true, Bool.false_eq_true, if_false, Exec.bind_run, Exec.lift_run]
    cases loaded : Image.new host.magick (some info.sourceImageName) with
    | error raised => exact Or.inl ⟨rfl, rfl⟩
    | ok image =>
      simp only
      split
      next permitted =>
        refine Or.inr ⟨⟨source, Image.new_reads loaded, permitted⟩, ?_⟩
        simp only [Exec.bind_run, mkdirs, execute, Exec.modify_run, Exec.lift_run]
        cases rendered : renderImage host.magick image info.width info.height toGenWaterMark waterMarkConfig
            self.logoPath with
        | error raised => exact ⟨rfl, Or.inl rfl⟩
        | ok picture =>
          have kept := (Image.new_path loaded) ▸ renderImage_path rendered
          cases wrote : host.magick.writeImage info.targetImageName with
          | false =>
            simp only [Image.save, wrote, Bool.false_eq_true, if_false, Exec.raise_run]
            exact ⟨rfl, Or.inl rfl⟩
          | true =>
            simp only [Image.save, wrote, if_true, Exec.modify_run, Exec.pure_run]
            refine Generated.untouched ?_ (notify_untouched host (thumbnailMessage self info) self.serverUrl _ true _)
            exact ⟨rfl, Or.inr ⟨picture, kept, rfl⟩⟩
      next =>
        exact Or.inl (notify_untouched host (thumbnailMessage self info) self.serverUrl _ false world)

theorem Untouched.trans {before middle after : World} (first : Untouched before middle)
    (second : Untouched middle after) : Untouched before after :=
  ⟨second.executed.trans first.executed, second.files.trans first.files⟩

theorem Generated.after {host : Host} {info : ThumbInfo} {before middle after : World}
    (untouched : Untouched before middle) (generated : Generated host info middle after) :
    Generated host info before after := by
  obtain ⟨executed, files⟩ := generated
  rw [untouched.executed] at executed
  rw [untouched.files] at files
  exact ⟨executed, files⟩

theorem generateAndAnswer_cases (host : Host) (self : ImageProcessor) (info : ThumbInfo) (world : World) :
    let after := (generateAndAnswer host self info world).2
    Untouched world after ∨
      (info.targetFileExists = false ∧ Generates host self world.files info ∧ Generated host info world after) := by
  intro after
  simp only [after, generateAndAnswer]
  cases present : info.targetFileExists with
  | true => exact Or.inl ⟨rfl, rfl⟩
  | false =>
    have processed := processImage_cases host self info (selectWaterMark self info).1 (selectWaterMark self info).2 world
    simp only [Bool.not_false, if_true, Exec.bind_run, Exec.pcall_run, true_and]
    cases (processImage host self info (selectWaterMark self info).1 (selectWaterMark self info).2 world).1 <;>
      exact processed

/-- A call that changes the files or runs a command has an accepted path whose thumbnail
is not there. -/
theorem resolveImageURI_cases (host : Host) (self : ImageProcessor) (oriRequestPath : Bytes) (world : World) :
    let after := (resolveImageURI host self oriRequestPath world).2
    Untouched world after ∨ ∃ info, self.extractThumbInfo world.files oriRequestPath = some info ∧
      info.targetFileExists = false ∧ Generates host self world.files info ∧ Generated host info world after := by
  intro after
  simp only [after, resolveImageURI, Exec.bind_run, Exec.get_run]
  cases accepted : self.extractThumbInfo world.files oriRequestPath with
  | none => exact Or.inl ⟨rfl, rfl⟩
  | some info =>
    simp only
    split
    · exact Or.inl ⟨rfl, rfl⟩
    split
    · have reported := report_untouched host (requestMessage oriRequestPath) self.serverUrl world
      rw [Exec.bind_run]
      cases outcome : report host (requestMessage oriRequestPath) self.serverUrl world with
      | mk result middle =>
        rw [outcome] at reported
        cases result with
        | error raised => exact Or.inl reported
        | ok _ =>
          rcases generateAndAnswer_cases host self info middle with untouched | ⟨absent, generates, generated⟩
          · exact Or.inl (reported.trans untouched)
          · exact Or.inr ⟨info, rfl, absent, reported.files ▸ generates, generated.after reported⟩
    · rcases generateAndAnswer_cases host self info world with untouched | ⟨absent, generates, generated⟩
      · exact Or.inl untouched
      · exact Or.inr ⟨info, rfl, absent, generates, generated⟩

end ImageServer
