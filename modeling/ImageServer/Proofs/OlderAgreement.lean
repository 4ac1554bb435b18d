import ImageServer.Proofs.GalleryImages
import ImageServer.Proofs.RouterGrammar

/-! The router in front of the older server. The older server writes its sizes as the router does, and
so the two agree on the names that end in `.jpg`, unless a folder looks like a size or the picture is one
that the older server renames. -/

namespace ImageServer.ImageLocator
open Regex Lua

/-- The folder of a sized name, as it arrives. -/
def SizedName.folder (name : SizedName) : Bytes := slash :: (bytes "cms/giltstore/" ++ directory name.base)

/-- The older server finds the sizes where the router has found them. -/
structure Understood (name : SizedName) : Prop where
  jpg : name.extension = bytes ".jpg"
  clear : ∀ component, Between component name.folder → ¬ ThumbnailServer.HasSize component

/-- The record that belongs to a sized name. -/
structure DecodesOlder (processor : ThumbnailServer.ImageProcessor) (name : SizedName) (info : ThumbInfo) : Prop where
  source : info.sourceImageName = processor.originalImagesRoot ++ bytes "cms/giltstore/" ++ name.base ++ name.extension
  width : info.width = ImageProcessor.sizeNumber name.width
  height : info.height = ImageProcessor.sizeNumber name.height
  /-- The thumbnail is stored where the next identical request looks. -/
  stored : info.requestImageName = name.path

namespace SizedName

variable (name : SizedName)

theorem width_size : IsSize name.width := ⟨name.digits.1, fun b member => Or.inl (name.digits.2 b member)⟩

theorem folder_ends : IsFolder name.folder := by
  by_cases slashed : slash ∈ name.base
  · obtain ⟨start, ends⟩ := directory_folder slashed
    exact ⟨slash :: (bytes "cms/giltstore/" ++ start), by simp [folder, ends]⟩
  · have none : directory name.base = [] := by simpa [directory] using (split_name slashed []).1
    exact ⟨bytes "/cms/giltstore", by simp [folder, none, bytes, slash]⟩

theorem imageFolder_folder : imageFolder name.folder = bytes "cms/giltstore/" ++ directory name.base := by
  obtain ⟨start, ends⟩ := name.folder_ends
  have inner : removePathSimbolAtHead name.folder = bytes "cms/giltstore/" ++ directory name.base :=
    removePathSimbolAtHead_slash _
  rw [imageFolder, inner]
  cases start with
  | nil =>
    have long := congrArg List.length ends
    simp [folder, bytes] at long
  | cons b start =>
    have rest : bytes "cms/giltstore/" ++ directory name.base = start ++ [slash] := (List.cons.inj ends).2
    rw [rest, appendPathSimbol2Tail_folder]

theorem path_jpg (jpg : name.extension = bytes ".jpg") : slash :: name.path =
    name.folder ++ (lastComponent name.base ++ ThumbnailServer.sizePart name.width name.height []) := by
  have whole := directory_append name.base
  simp only [path, folder, sizes, jpg, ThumbnailServer.sizePart]
  nth_rewrite 1 [← whole]
  simp

theorem extension_four : name.extension.length = 4 := by
  obtain ⟨text, listed, pairs⟩ := name.known
  have four : ∀ known ∈ [bytes ".jpg", bytes ".gif", bytes ".png"], known.length = 4 := by decide +kernel
  rw [← pairs.length_eq, four text listed]

end SizedName

theorem contains_of_hasSize {component : Bytes} (sized : ThumbnailServer.HasSize component) :
    Contains ThumbnailServer.galleryItems component := by
  rw [ThumbnailServer.HasSize, find_compiled ThumbnailServer.sizePattern_compiled, findFrom_isSome_iff] at sized
  obtain ⟨before, tail, rfl, fits⟩ := sized
  refine ⟨before, tail, rfl, Fits.opening ?_⟩
  exact @Fits.option _ _ _ [] (by simp) (by simp) (Fits.closing fits)

/-- A name that is understood is decoded, but for a picture that is renamed. -/
theorem older_decodes (self : ThumbnailServer.ImageProcessor) (stored : Files) {name : SizedName} (understood : Understood name) :
    ∃ info, self.extractThumbInfo stored (slash :: name.path) = some info ∧ info.requestImageName = name.path ∧
      info.width = ImageProcessor.sizeNumber name.width ∧ info.height = ImageProcessor.sizeNumber name.height ∧
      info.sourceImageName = self.originalImagesRoot ++ (bytes "cms/giltstore/" ++ directory name.base) ++
        (if lastComponent name.base = bytes "g" then bytes "ori" else lastComponent name.base) ++ bytes ".jpg" := by
  obtain ⟨last, hit⟩ := ThumbnailServer.find_sized name.folder_ends understood.clear (lastComponent_plain name.base)
    name.width_size name.size
  have shape := name.path_jpg understood.jpg
  have start : appendPathSimbol2Tail (removePathSimbolAtHead name.folder) = bytes "cms/giltstore/" ++ directory name.base :=
    name.imageFolder_folder
  rw [shape]
  simp only [ThumbnailServer.ImageProcessor.extractThumbInfo, hit, sub_upto, List.take_left, Option.some.injEq,
    exists_eq_left', start, true_and, List.append_nil]
  have whole := directory_append name.base
  simp only [SizedName.path, SizedName.sizes, understood.jpg]
  nth_rewrite 3 [← whole]
  simp [bytes]

theorem SizedName.path_last (name : SizedName) : slash :: name.path =
    name.folder ++ (lastComponent name.base ++ name.sizes ++ name.extension) := by
  have whole := directory_append name.base
  simp only [path, folder]
  nth_rewrite 1 [← whole]
  simp

/-- No letter of an extension is a slash. -/
theorem SizedName.last_plain (name : SizedName) : slash ∉ lastComponent name.base ++ name.sizes ++ name.extension := by
  have known : ∀ text ∈ [bytes ".jpg", bytes ".gif", bytes ".png"], ∀ b ∈ text, caseless b slash = false := by
    decide +kernel
  obtain ⟨text, listed, pairs⟩ := name.known
  simp only [sizes, List.mem_append, List.mem_cons, not_or]
  refine ⟨⟨lastComponent_plain name.base, by decide, ?_, by decide, ?_⟩, ?_⟩
  · exact name.width_size.not_mem (by decide)
  · exact name.size.not_mem (by decide)
  · intro member
    obtain ⟨b, inside, same⟩ := read_from pairs member
    rw [known text listed b inside] at same
    cases same

/-- A thumbnail that is stored where the router looks was understood. -/
theorem understood_of_stored {self : ThumbnailServer.ImageProcessor} {stored : Files} {name : SizedName} {info : ThumbInfo}
    (accepted : self.extractThumbInfo stored (slash :: name.path) = some info) (same : info.requestImageName = name.path) :
    Understood name := by
  unfold ThumbnailServer.ImageProcessor.extractThumbInfo at accepted
  split at accepted
  next first last imgName1 imgIndex sizeStr1 sizeStr2 hit =>
    obtain ⟨before, imgName, text1, text2, rest, shape, plain, size1, size2, position, texts⟩ :=
      ThumbnailServer.find_thumbPattern hit
    simp only [List.cons.injEq, and_true] at texts
    obtain ⟨rfl, rfl, rfl, rfl⟩ := texts
    obtain rfl : first = before.length + 1 := position
    rw [← Option.some.inj accepted] at same
    simp only [Lua.sub_upto] at same
    rcases folder_cases shape with ⟨folder, tail⟩ | ⟨start, folder, tail⟩
    · rw [folder] at same
      have begins := congrArg List.head? same
      simp [SizedName.path, bytes, slash] at begins
    · rw [folder, tail] at same
      have nothing : rest = [] := by
        simpa [ThumbnailServer.sizePart, bytes] using same
      subst nothing
      have ends : slash :: name.path = before ++ [slash] ++ (imgName1 ++ ThumbnailServer.sizePart sizeStr1 sizeStr2 []) := by
        simpa using shape
      have plainLast : slash ∉ imgName1 ++ ThumbnailServer.sizePart sizeStr1 sizeStr2 [] := by
        rw [List.mem_append, not_or]
        exact ⟨plain, ThumbnailServer.sizePart_plain size1 size2⟩
      obtain ⟨lead, leads⟩ := name.folder_ends
      have halves : lead = before ∧ lastComponent name.base ++ name.sizes ++ name.extension =
          imgName1 ++ ThumbnailServer.sizePart sizeStr1 sizeStr2 [] := by
        apply split_at_last name.last_plain plainLast
        have whole := name.path_last
        rw [leads, ends] at whole
        simpa using whole.symm
      constructor
      · have tails := halves.2
        have shape' : imgName1 ++ ThumbnailServer.sizePart sizeStr1 sizeStr2 [] =
            (imgName1 ++ 95 :: (sizeStr1 ++ 95 :: sizeStr2)) ++ bytes ".jpg" := by simp [ThumbnailServer.sizePart]
        rw [shape'] at tails
        exact (List.append_inj' tails (by rw [name.extension_four]; rfl)).2
      · intro component between sized
        obtain ⟨found, other, left, _, _, again, -, -, sooner⟩ := component_inner ThumbnailServer.galleryItems_inert
          ThumbnailServer.galleryItems_takes name.folder_ends name.last_plain between (contains_of_hasSize sized)
        rw [find_compiled ThumbnailServer.thumbPattern_compiled, name.path_last, again] at hit
        rw [Option.some.inj hit, leads, halves.1] at sooner
        simp at sooner
        omega
  next => cases accepted

/-- If neither candidate exists, the request is handed over and decoded by the older server, and the
thumbnail is stored where the router looks, exactly for the names that are understood and are not renamed. -/
theorem older_agrees_iff (self : ThumbnailServer.ImageProcessor) {files : Files} (stored : Files) {uri : Bytes}
    {name : SizedName} (sized : name.Of uri) (host : Bytes) (noOriginal : isFileExists files (originalFile name.path) = false)
    (noThumbnail : isFileExists files (thumbnailFile name.path) = false) :
    (∃ address info, locate files (giltstore uri host) = some address ∧
        self.extractThumbInfo stored (outerThumbnail address) = some info ∧ DecodesOlder self name info) ↔
      Understood name ∧ lastComponent name.base ≠ bytes "g" := by
  have handed := locate_sized sized host noOriginal noThumbnail
  have arrived := outerThumbnail_handed name.path_ne_nil name.path_line
  constructor
  · rintro ⟨address, info, located, accepted, decodes⟩
    obtain rfl := Option.some.inj (handed.symm.trans located)
    rw [arrived] at accepted
    have understood := understood_of_stored accepted decodes.stored
    refine ⟨understood, fun renamed => ?_⟩
    obtain ⟨other, again, -, -, -, source⟩ := older_decodes self stored understood
    obtain rfl := Option.some.inj (accepted.symm.trans again)
    have base : name.base = directory name.base ++ bytes "g" := by rw [← renamed, directory_append]
    rw [decodes.source, understood.jpg, if_pos renamed] at source
    generalize directory name.base = lead at base source
    rw [base] at source
    simp only [List.append_assoc, List.append_cancel_left_eq] at source
    exact absurd source (by decide)
  · rintro ⟨understood, plain⟩
    obtain ⟨info, accepted, stored, width, height, source⟩ := older_decodes self stored understood
    refine ⟨_, info, handed, arrived ▸ accepted, ?_, width, height, stored⟩
    have whole := directory_append name.base
    rw [source, if_neg plain, understood.jpg]
    nth_rewrite 3 [← whole]
    simp

theorem older_agrees_plain : ∃ name : SizedName, name.Of (bytes "/cms/giltstore/a_100_100.jpg") ∧
    ((∃ address info, locate (fun _ => none) (giltstore (bytes "/cms/giltstore/a_100_100.jpg") (bytes "1.xiustatic.com")) =
        some address ∧ ThumbnailServer.processor.extractThumbInfo (fun _ => none) (outerThumbnail address) = some info ∧
        DecodesOlder ThumbnailServer.processor name info) ↔
      Understood name ∧ lastComponent name.base ≠ bytes "g") := by
  obtain ⟨groups, hit⟩ := Option.isSome_iff_exists.mp
    (show (sizedRegex.search (bytes "/cms/giltstore/a_100_100.jpg")).isSome by decide +kernel)
  obtain ⟨name, captured⟩ := sized_name hit
  exact ⟨name, captured, older_agrees_iff ThumbnailServer.processor (fun _ => none) captured (bytes "1.xiustatic.com") rfl rfl⟩

end ImageServer.ImageLocator
