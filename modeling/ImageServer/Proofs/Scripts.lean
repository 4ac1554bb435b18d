import ImageServer.Proofs.Answers
import ImageServer.Proofs.Splitting
import ImageServer.Proofs.ThumbnailStore
import ImageServer.ThumbnailNowatermark
import ImageServer.WriteOnce

/-! Two scripts over one disk. Whatever the order of their calls, each keeps to its own folder, and what
is drawn over a picture is settled by the folder it is found in and by the request it was made for. -/

namespace ImageServer

section Marks
variable {magick : Magick}

namespace Image

theorem new_marks {path : Option Bytes} {image : Image} (loaded : new magick path = .ok image) : image.marks = [] := by
  cases path with
  | none => cases loaded; rfl
  | some path =>
    simp only [new, load] at loaded
    split at loaded <;> cases loaded
    rfl

theorem resize_marks {image after : Image} {width height : Number} (done : image.resize magick width height = .ok after) :
    after.marks = image.marks := by
  unfold resize at done
  split at done <;> cases done
  rfl

theorem setSize_marks {image after : Image} {width height : Option Number}
    (done : image.setSize magick width height = .ok after) : after.marks = image.marks := by
  unfold setSize at done
  simp only at done
  split at done
  · exact resize_marks done
  · split at done <;> exact resize_marks done
  · split at done <;> exact resize_marks done
  · cases done; rfl

theorem extent_marks (image : Image) (width height leftPos topPos : Number) :
    (image.extent magick width height leftPos topPos).marks = image.marks := by
  unfold extent
  split <;> rfl

theorem thumbnail4LargeImgs_marks {image after : Image} {width height : Option Number} {placement : Placement}
    (done : image.thumbnail4LargeImgs magick width height = .ok (placement, after)) : after.marks = image.marks := by
  unfold thumbnail4LargeImgs at done
  simp only at done
  split at done
  · obtain ⟨resized, sized, rest⟩ := ok_of_bind done
    cases rest
    split
    · rw [extent_marks, setSize_marks sized]
    · exact setSize_marks sized
  · split at done
    · cases done; rfl
    · obtain ⟨resized, sized, rest⟩ := ok_of_bind done
      cases rest
      exact setSize_marks sized
  · split at done
    · cases done; rfl
    · obtain ⟨resized, sized, rest⟩ := ok_of_bind done
      cases rest
      exact setSize_marks sized
  · cases done

theorem addWaterMark_marks (composes : ∀ x y, magick.compositeImage x y = true) {image after : Image} {logo : Option Bytes}
    {x y : Number} (done : image.addWaterMark magick logo x y = .ok after) :
    after.marks = image.marks ++ [⟨logo, x.toInt, y.toInt⟩] := by
  unfold addWaterMark at done
  obtain ⟨mark, -, rest⟩ := ok_of_bind done
  rw [composes, if_pos rfl] at rest
  cases rest
  rfl

end Image

theorem renderImage_unmarked {image after : Image} {width height : Option Number} {waterMarkConfig : Option WaterMarkKey}
    {logoPath : Option Bytes} (done : renderImage magick image width height false waterMarkConfig logoPath = .ok after) :
    after.marks = image.marks := by
  obtain ⟨⟨rsize, placed⟩, thumbnail, rest⟩ := ok_of_bind done
  cases rest
  exact Image.thumbnail4LargeImgs_marks thumbnail

/-- The watermark of type 6 lies in the middle of what was asked for, so both sides were. -/
theorem renderImage_marked (composes : ∀ x y, magick.compositeImage x y = true) {image after : Image}
    {width height : Option Number} {config : WaterMarkKey} (six : config.waterMarkType = some 6) {logoPath : Option Bytes}
    (done : renderImage magick image width height true (some config) logoPath = .ok after) :
    ∃ w h, width = some w ∧ height = some h ∧
      after.marks = image.marks ++ [⟨config.logoPath.or logoPath, (w / 2 - 50).toInt, (h / 2 - 19).toInt⟩] := by
  obtain ⟨⟨rsize, placed⟩, thumbnail, drawn⟩ := ok_of_bind done
  have five : (some 6 : Option Int) ≠ some 5 := by decide
  have one : (some 6 : Option Int) ≠ some 1 := by decide
  simp only [drawWaterMark, six, if_neg five, if_neg one, if_true] at drawn
  split at drawn
  next w h =>
    refine ⟨w, h, rfl, rfl, ?_⟩
    rw [Image.addWaterMark_marks composes drawn, Image.thumbnail4LargeImgs_marks thumbnail]
  · cases drawn

end Marks

/-- The picture that a call saves, and how it comes about. -/
structure Renders (host : Host) (processor : ImageProcessor) (files : Files) (info : ThumbInfo) (image : Image) : Prop where
  generates : Generates host processor files info
  absent : files info.targetImageName = none
  drawn : ∃ picture, Image.new host.magick (some info.sourceImageName) = .ok picture ∧
    renderImage host.magick picture info.width info.height (selectWaterMark processor info).1
      (selectWaterMark processor info).2 processor.logoPath = .ok image

theorem processImage_renders {host : Host} {self : ImageProcessor} {info : ThumbInfo} {world : World}
    (folders : Generates host self world.files info → MakesFolders (mkdirLine info))
    (absent : world.files info.targetImageName = none) :
    let after := (processImage host self info (selectWaterMark self info).1 (selectWaterMark self info).2 world).2
    after.files = world.files ∨ ∃ image, Renders host self world.files info image ∧
      after.files = Function.update world.files info.targetImageName (some (.thumbnail image)) := by
  intro after
  have course := processImage_course host self info (selectWaterMark self info).1 (selectWaterMark self info).2 world
  simp only [after]
  generalize processImage host self info (selectWaterMark self info).1 (selectWaterMark self info).2 world = outcome
    at course
  cases course with
  | unsaved files sent =>
    rcases files with same | ⟨generates, moved⟩
    · exact Or.inl same
    · exact Or.inl (moved.trans (host.mkdir_keeps (mkdirLine info) world.files (folders generates)))
  | saved picture image middle generates loaded rendered files sent =>
    refine Or.inr ⟨image, ⟨generates, absent, picture, loaded, rendered⟩, ?_⟩
    have untouched := notify_untouched host (thumbnailMessage self info) self.serverUrl (self.sendMessageFlag && true) true middle
    rw [notify, untouched.files, files, host.mkdir_keeps (mkdirLine info) world.files (folders generates)]

theorem resolveImageURI_renders {host : Host} {self : ImageProcessor} {path : Bytes} {world : World}
    (inert : Inert self world ⟨host, path⟩) :
    let after := (resolveImageURI host self path world).2
    after.files = world.files ∨ ∃ info image, self.extractThumbInfo world.files path = some info ∧
      Renders host self world.files info image ∧
      after.files = Function.update world.files info.targetImageName (some (.thumbnail image)) := by
  intro after
  simp only [after]
  cases accepted : self.extractThumbInfo world.files path with
  | none =>
    rw [resolveImageURI_refused accepted]
    exact Or.inl rfl
  | some info =>
    rcases resolveImageURI_accepted accepted with ⟨-, middle, same, run⟩ | ⟨-, raised, later, run, same⟩
    · rw [run, generateAndAnswer_result]
      cases present : info.targetFileExists with
      | true => exact Or.inl same
      | false =>
        have absent : middle.files info.targetImageName = none := by
          obtain ⟨request, -, rfl⟩ := extractThumbInfo_some accepted
          simpa [SizedRequest.info, isFileExists, same] using present
        have renders := processImage_renders (fun generates => inert info accepted present (same ▸ generates)) absent
        simp only [Bool.false_eq_true, if_false]
        generalize processImage host self info (selectWaterMark self info).1 (selectWaterMark self info).2 middle = outcome
          at renders
        have world' : outcome.2.files = world.files ∨ ∃ image, Renders host self world.files info image ∧
            outcome.2.files = Function.update world.files info.targetImageName (some (.thumbnail image)) := by
          rw [← same]
          exact renders
        have saves : outcome.2.files = world.files ∨ ∃ info' image, some info = some info' ∧
            Renders host self world.files info' image ∧
            outcome.2.files = Function.update world.files info'.targetImageName (some (.thumbnail image)) := by
          rcases world' with untouched | ⟨image, renders, saved⟩
          · exact Or.inl untouched
          · exact Or.inr ⟨info, image, rfl, renders, saved⟩
        split <;> exact saves
    · rw [run]
      exact Or.inl same

/-- The text has a second piece between its slashes, and this is it. -/
def Second (piece text : Bytes) : Prop :=
  ∃ first rest, slash ∉ first ∧ text = first ++ slash :: (piece ++ rest) ∧ (rest = [] ∨ rest.head? = some slash)

theorem split_slashes (text : Bytes) : split text (bytes "/") = some (text.splitOn slash) := by
  obtain ⟨pieces, done, cuts⟩ := @splitLoop_cuts text (bytes "/") (by simp [bytes]) (by simp [magic, bytes])
    (text.length + 2) 0 (Nat.zero_le _) (by omega)
  rw [split, done, @Separator.Cuts.single _ _ _ _ slash cuts]
  rfl

theorem second_iff {text piece : Bytes} (plain : slash ∉ piece) :
    (split text (bytes "/")).bind (·[1]?) = some piece ↔ Second piece text := by
  rw [split_slashes, Option.bind_some]
  constructor
  · intro found
    by_cases marked : slash ∈ text
    · obtain ⟨first, after, rfl, unmarked⟩ := List.eq_append_cons_of_mem marked
      rw [List.splitOn_append_cons_self_of_not_mem unmarked, List.getElem?_cons_succ] at found
      by_cases again : slash ∈ after
      · obtain ⟨second, rest, rfl, unmarked'⟩ := List.eq_append_cons_of_mem again
        rw [List.splitOn_append_cons_self_of_not_mem unmarked'] at found
        obtain rfl := Option.some.inj found
        exact ⟨first, slash :: rest, unmarked, rfl, Or.inr rfl⟩
      · rw [List.splitOn_eq_singleton again] at found
        obtain rfl := Option.some.inj found
        exact ⟨first, [], unmarked, by simp, Or.inl rfl⟩
    · rw [List.splitOn_eq_singleton marked] at found
      cases found
  · rintro ⟨first, rest, unmarked, rfl, ends⟩
    rw [List.splitOn_append_cons_self_of_not_mem unmarked, List.getElem?_cons_succ]
    rcases ends with rfl | ends
    · rw [List.append_nil, List.splitOn_eq_singleton plain]
      rfl
    · obtain ⟨rest, rfl⟩ := List.head?_eq_some_iff.mp ends
      rw [List.splitOn_append_cons_self_of_not_mem plain]
      rfl

namespace Script
open WriteOnce Runs

def suppliers : List Bytes :=
  ["supplier-1", "supplier-2", "supplier-3", "supplier-4", "supplier-6", "supplier-7", "supplier-8", "supplier-9",
    "supplier-12", "supplier-13"].map bytes

/-- One side is large, and the second folder is that of a supplier. -/
structure OfSupplier (request : SizedRequest) : Prop where
  large : (∃ width, ImageProcessor.sizeNumber request.sizeStr1 = some width ∧ Number.le 400 width = true) ∨
    ∃ height, ImageProcessor.sizeNumber request.sizeStr2 = some height ∧ Number.le 400 height = true
  folder : ∃ supplier ∈ suppliers, Second supplier request.requestImageName

/-- What is drawn over a picture. The logo lies in the middle, so both sides were asked for. -/
def Marked : Script → SizedRequest → List Mark → Prop
  | thumbnailNowatermark, _, marks => marks = []
  | thumbnail, request, marks => (¬ OfSupplier request ∧ marks = []) ∨ (OfSupplier request ∧ ∃ width height,
      ImageProcessor.sizeNumber request.sizeStr1 = some width ∧ ImageProcessor.sizeNumber request.sizeStr2 = some height ∧
      marks = [⟨some (bytes "/www/target/logos/center.png"), (width / 2 - 50).toInt, (height / 2 - 19).toInt⟩])

/-- A picture of a permitted size, from a source that is there, under the folder of the script. -/
def Shown : Maker Bytes File := fun files path file => ∃ (script : Script) (request : SizedRequest) (image : ImageServer.Image),
  path = request.targetImageName script.processor ∧ file = .thumbnail image ∧
    image.path = request.sourceImageName script.processor ∧ isFileExists files image.path = true ∧
    sizeStr (ImageProcessor.sizeNumber request.sizeStr1) (ImageProcessor.sizeNumber request.sizeStr2) ∈ Thumbnail.permitedSizes ∧
    Marked script request image.marks

theorem shown_lasting : Shown.Lasting := by
  rintro before after kept path file ⟨script, request, image, target, same, source, there, rest⟩
  obtain ⟨found, first⟩ := Option.isSome_iff_exists.mp there
  exact ⟨script, request, image, target, same, source, Option.isSome_iff_exists.mpr ⟨found, kept _ _ first⟩, rest⟩

/-- The command line makes directories if the call comes to it, and the library composes. -/
structure Careful (world : World) (request : Request) : Prop where
  inert : Inert request.script.processor world ⟨request.host, request.reqPath⟩
  composes : ∀ x y, request.host.magick.compositeImage x y = true

theorem waterMarkImagesKeys_eq :
    Thumbnail.waterMarkImagesKeys = suppliers.map fun supplier => ⟨some supplier, some 6, none⟩ := rfl

theorem suppliers_plain : ∀ supplier ∈ suppliers, slash ∉ supplier := by decide +kernel

/-- The watermark that is selected, and the request it is selected for. -/
theorem selectWaterMark_thumbnail (request : SizedRequest) (files : Files) :
    (¬ OfSupplier request ∧ selectWaterMark Thumbnail.processor (request.info Thumbnail.processor files) = (false, none)) ∨
      (OfSupplier request ∧ ∃ supplier, selectWaterMark Thumbnail.processor (request.info Thumbnail.processor files) =
        (true, some ⟨some supplier, some 6, none⟩)) := by
  have keys : Thumbnail.processor.waterMarkImagesKeys.getD [] =
      suppliers.map fun supplier => ⟨some supplier, some 6, none⟩ := waterMarkImagesKeys_eq
  simp only [selectWaterMark, SizedRequest.info, keys]
  split
  next large =>
    have large' : (∃ width, ImageProcessor.sizeNumber request.sizeStr1 = some width ∧ Number.le 400 width = true) ∨
        ∃ height, ImageProcessor.sizeNumber request.sizeStr2 = some height ∧ Number.le 400 height = true := by
      simpa [Option.any_eq_true] using large
    split
    next v found =>
      obtain ⟨supplier, listed, rfl⟩ := List.mem_map.mp (List.mem_of_find?_eq_some found)
      have second := List.find?_some found
      refine Or.inr ⟨⟨large', supplier, listed, ?_⟩, supplier, rfl⟩
      exact (second_iff (suppliers_plain supplier listed)).mp (of_decide_eq_true second)
    next missed =>
      refine Or.inl ⟨?_, rfl⟩
      rintro ⟨-, supplier, listed, second⟩
      have different := List.find?_eq_none.mp missed _ (List.mem_map_of_mem listed)
      exact different (decide_eq_true ((second_iff (suppliers_plain supplier listed)).mpr second))
  next small =>
    refine Or.inl ⟨fun supplied => small ?_, rfl⟩
    simpa [Option.any_eq_true] using supplied.large

theorem selectWaterMark_nowatermark (info : ThumbInfo) :
    selectWaterMark ThumbnailNowatermark.processor info = (false, none) := by
  simp only [selectWaterMark]
  split <;> rfl

theorem marked_of_drawn {script : Script} {request : SizedRequest} {files : Files} {magick : Magick}
    {picture image : ImageServer.Image} (composes : ∀ x y, magick.compositeImage x y = true) (fresh : picture.marks = [])
    (done : renderImage magick picture (ImageProcessor.sizeNumber request.sizeStr1) (ImageProcessor.sizeNumber request.sizeStr2)
      (selectWaterMark script.processor (request.info script.processor files)).1
      (selectWaterMark script.processor (request.info script.processor files)).2 script.processor.logoPath = .ok image) :
    Marked script request image.marks := by
  cases script with
  | thumbnailNowatermark =>
    rw [processor, selectWaterMark_nowatermark] at done
    exact (renderImage_unmarked done).trans fresh
  | thumbnail =>
    rcases selectWaterMark_thumbnail request files with ⟨other, selected⟩ | ⟨supplied, supplier, selected⟩
    · rw [processor, selected] at done
      exact Or.inl ⟨other, (renderImage_unmarked done).trans fresh⟩
    · rw [processor, selected] at done
      obtain ⟨width, height, wide, high, marks⟩ := renderImage_marked composes rfl done
      rw [fresh, List.nil_append] at marks
      exact Or.inr ⟨supplied, width, height, wide, high, marks⟩

theorem serve_files_eq (world : World) (script : Script) (host : Host) (path : Bytes) :
    (serve world ⟨script, host, path⟩).files = (resolveImageURI host script.processor path world).2.files := by
  cases script with
  | thumbnail =>
    simp only [serve, main, Thumbnail.main, processor, Exec.bind_run]
    rcases resolveImageURI host Thumbnail.processor path world with ⟨_ | _ | _, after⟩ <;> rfl
  | thumbnailNowatermark =>
    simp only [serve, main, ThumbnailNowatermark.main, processor, Exec.bind_run]
    rcases resolveImageURI host ThumbnailNowatermark.processor path world with ⟨_ | _ | _, after⟩ <;> rfl

theorem serve_adds {world : World} {request : Request} (careful : Careful world request) :
    Adds Shown world.files (serve world request).files := by
  obtain ⟨script, host, path⟩ := request
  rw [serve_files_eq]
  rcases resolveImageURI_renders careful.inert with same | ⟨info, image, accepted, renders, saved⟩
  · exact .nothing same
  · obtain ⟨request, -, rfl⟩ := extractThumbInfo_some accepted
    obtain ⟨picture, loaded, drawn⟩ := renders.drawn
    have source : image.path = request.sourceImageName script.processor :=
      (renderImage_path drawn).trans (Image.new_path loaded)
    refine .entry _ _ renders.absent ⟨script, request, image, rfl, rfl, source, ?_, ?_, ?_⟩ saved
    · rw [source]
      exact renders.generates.source
    · have permitted := renders.generates.permitted
      cases script <;> exact permitted
    · exact marked_of_drawn careful.composes (Image.new_marks loaded) drawn

theorem roots_apart {script other : Script} {path : Bytes} (under : (processor script).thumbnailImagesRoot <+: path)
    (under' : (processor other).thumbnailImagesRoot <+: path) : other = script := by
  have apart : ¬ (processor thumbnail).thumbnailImagesRoot <+: (processor thumbnailNowatermark).thumbnailImagesRoot ∧
      ¬ (processor thumbnailNowatermark).thumbnailImagesRoot <+: (processor thumbnail).thumbnailImagesRoot := by
    decide +kernel
  cases script <;> cases other
  · rfl
  · exact absurd under' (not_under_both apart under)
  · exact absurd under (not_under_both apart under')
  · rfl

/-- What the scripts leave of a disk whose folders for thumbnails were empty. -/
structure Apart (start after : Files) : Prop where
  kept : Extends start after
  outside : ∀ path, (∀ script, ¬ (processor script).thumbnailImagesRoot <+: path) → after path = start path
  shown : ∀ script path file, (processor script).thumbnailImagesRoot <+: path → after path = some file →
    ∃ (request : SizedRequest) (image : ImageServer.Image), path = request.targetImageName (processor script) ∧
      file = .thumbnail image ∧ image.path = request.sourceImageName (processor script) ∧
      isFileExists after image.path = true ∧
      sizeStr (ImageProcessor.sizeNumber request.sizeStr1) (ImageProcessor.sizeNumber request.sizeStr2) ∈
        Thumbnail.permitedSizes ∧ Marked script request image.marks

end Script
end ImageServer
