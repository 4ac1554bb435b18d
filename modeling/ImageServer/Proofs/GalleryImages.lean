import ImageServer.Proofs.RequestGrammar
import ImageServer.ThumbnailServer

/-! The requests of the older server. The name that it captures is always the longest one, so the
capture for the index of a picture stays empty: a thumbnail determines its picture and its size, but
the pictures of a gallery that have an index are not renamed. -/

namespace ImageServer.ThumbnailServer
open Lua

/-- What follows the name and the index in the pattern for requests. -/
def sizePattern : Bytes := bytes "[_]([0-9*]+)[_]([0-9*]+)[.]jpg"

def HasSize (component : Bytes) : Prop := (Lua.find component sizePattern 1).isSome = true

def sizeItems : Lua.Pattern :=
  [.single (.set false [(95, 95)]) .one, .opening, .single sizeClass .plus, .closing,
    .single (.set false [(95, 95)]) .one, .opening, .single sizeClass .plus, .closing,
    .single (.set false [(46, 46)]) .one, .single (.byte 106) .one, .single (.byte 112) .one, .single (.byte 103) .one]

def galleryItems : Lua.Pattern := .opening :: .single (.set false [(48, 57)]) .option :: .closing :: sizeItems

theorem thumbPattern_compiled : compile ImageProcessor.thumbPattern = some (componentPattern galleryItems) := by decide

theorem sizePattern_compiled : compile sizePattern = some sizeItems := by decide

theorem galleryItems_inert : Pattern.takes galleryItems slash = false := by decide

theorem galleryItems_takes : ¬ Fits galleryItems [] := by simp [Fits, matchItems, galleryItems, sizeItems]

/-- Two sizes between underscores, and what may follow them. -/
def sizePart (sizeStr1 sizeStr2 rest : Bytes) : Bytes :=
  95 :: (sizeStr1 ++ 95 :: (sizeStr2 ++ bytes ".jpg" ++ rest))

theorem fits_sizeItems {sizeStr1 sizeStr2 : Bytes} (size1 : IsSize sizeStr1) (size2 : IsSize sizeStr2) (rest : Bytes) :
    Fits sizeItems (sizePart sizeStr1 sizeStr2 rest) := by
  rw [sizePart, List.append_assoc]
  apply Fits.one (by decide)
  apply size1.fits
  apply Fits.one (by decide)
  apply size2.fits
  exact Fits.one (by decide) (Fits.one (by decide) (Fits.one (by decide) (Fits.one (by decide) rfl)))

theorem fits_galleryItems {sizeStr1 sizeStr2 : Bytes} (size1 : IsSize sizeStr1) (size2 : IsSize sizeStr2)
    (rest : Bytes) : Fits galleryItems (sizePart sizeStr1 sizeStr2 rest) := by
  apply Fits.opening
  exact @Fits.option _ _ _ [] (by simp) (by simp) (Fits.closing (fits_sizeItems size1 size2 rest))

theorem match_galleryItems {text left : Bytes} {captures captures' : List Capture} (closed : Closed captures)
    (done : matchItems galleryItems text captures = some (left, captures')) :
    ∃ imgIndex sizeStr1 sizeStr2, text = imgIndex ++ sizePart sizeStr1 sizeStr2 left ∧
      imgIndex.length ≤ 1 ∧ slash ∉ imgIndex ∧ IsSize sizeStr1 ∧ IsSize sizeStr2 ∧
      captures'.filterMap (·.text) = captures.filterMap (·.text) ++ [imgIndex, sizeStr1, sizeStr2] := by
  obtain ⟨imgIndex, t, rfl, short, digits, afterIndex⟩ := capture_option closed done
  obtain ⟨b, t, rfl, underscore, afterUnderscore⟩ := match_one afterIndex
  obtain ⟨sizeStr1, t, rfl, some1, class1, afterSize1⟩ := capture_plus (closed.snoc _ _) afterUnderscore
  obtain ⟨b', t, rfl, underscore', afterUnderscore'⟩ := match_one afterSize1
  obtain ⟨sizeStr2, t, rfl, some2, class2, afterSize2⟩ := capture_plus ((closed.snoc _ _).snoc _ _) afterUnderscore'
  obtain ⟨dot, t, rfl, dotClass, afterDot⟩ := match_one afterSize2
  obtain ⟨j, t, rfl, jByte, afterJ⟩ := match_one afterDot
  obtain ⟨p, t, rfl, pByte, afterP⟩ := match_one afterJ
  obtain ⟨g, t, rfl, gByte, afterG⟩ := match_one afterP
  obtain ⟨rfl, rfl⟩ := Prod.mk.inj (match_nil afterG)
  obtain rfl := Lua.Class.eq_of_mem underscore
  obtain rfl := Lua.Class.eq_of_mem underscore'
  obtain rfl := Lua.Class.eq_of_mem dotClass
  simp only [Class.mem, beq_iff_eq] at jByte pByte gByte
  subst jByte pByte gByte
  have jpg (rest : Bytes) : bytes ".jpg" ++ rest = 46 :: 106 :: 112 :: 103 :: rest := rfl
  refine ⟨imgIndex, sizeStr1, sizeStr2, by simp [sizePart, jpg], short, ?_, isSize_of_class some1 class1,
    isSize_of_class some2 class2, by simp⟩
  intro member
  exact absurd (digits slash member) (by decide)

theorem hasSize_of_contains {component : Bytes} (contains : Contains galleryItems component) : HasSize component := by
  obtain ⟨before, tail, rfl, fits⟩ := contains
  obtain ⟨⟨left, captures⟩, done⟩ := Option.isSome_iff_exists.mp fits
  obtain ⟨imgIndex, sizeStr1, sizeStr2, rfl, -, -, size1, size2, -⟩ := match_galleryItems (by simp [Closed]) done
  rw [HasSize, find_compiled sizePattern_compiled, findFrom_isSome_iff]
  exact ⟨before ++ imgIndex, _, by simp, fits_sizeItems size1 size2 left⟩

/-- What an accepted path is made of. The index is a part of the name. -/
structure SizedRequest where
  relativePath : Bytes
  imgName : Bytes
  sizeStr1 : Bytes
  sizeStr2 : Bytes
  folder : IsFolder relativePath
  plain : slash ∉ imgName
  size1 : IsSize sizeStr1
  size2 : IsSize sizeStr2

namespace SizedRequest

def oriImgName (request : SizedRequest) : Bytes := if request.imgName = bytes "g" then bytes "ori" else request.imgName

def requestImageName (request : SizedRequest) : Bytes :=
  request.relativePath ++ request.imgName ++ sizePart request.sizeStr1 request.sizeStr2 []

def info (request : SizedRequest) (self : ImageProcessor) (files : Files) : ThumbInfo where
  isThumbRequest := true
  targetFileExists := isFileExists files (self.thumbnailImagesRoot ++ request.requestImageName)
  sourceImageName := self.originalImagesRoot ++ request.relativePath ++ request.oriImgName ++ bytes ".jpg"
  requestImageName := request.requestImageName
  targetFolder := self.thumbnailImagesRoot ++ request.relativePath
  targetImageName := self.thumbnailImagesRoot ++ request.requestImageName
  width := ImageServer.ImageProcessor.sizeNumber request.sizeStr1
  height := ImageServer.ImageProcessor.sizeNumber request.sizeStr2

end SizedRequest

/-- The first match takes the whole name, so nothing is left for the index. -/
theorem index_empty {imgIndex sizeStr1 sizeStr2 left : Bytes} (size1 : IsSize sizeStr1) (size2 : IsSize sizeStr2)
    (longest : ∀ more later, imgIndex ++ sizePart sizeStr1 sizeStr2 left = more ++ later → more ≠ [] →
      slash ∉ more → ¬ Fits galleryItems later) (plain : slash ∉ imgIndex) : imgIndex = [] := by
  by_contra some
  exact longest imgIndex _ rfl some plain (fits_galleryItems size1 size2 left)

theorem find_thumbPattern {path : Bytes} {found : Found}
    (hit : Lua.find path ImageProcessor.thumbPattern 1 = some found) :
    ∃ before imgName sizeStr1 sizeStr2 rest,
      path = before ++ slash :: (imgName ++ sizePart sizeStr1 sizeStr2 rest) ∧
      slash ∉ imgName ∧ IsSize sizeStr1 ∧ IsSize sizeStr2 ∧
      found.first = before.length + 1 ∧ found.captures = [imgName, [], sizeStr1, sizeStr2] := by
  rw [find_compiled thumbPattern_compiled] at hit
  obtain ⟨before, imgName, tail, rest, captures, rfl, plain, first, done, texts, longest, -⟩ := component_some hit
  obtain ⟨imgIndex, sizeStr1, sizeStr2, rfl, -, plainIndex, size1, size2, sizes⟩ :=
    match_galleryItems (by simp [Closed]) done
  obtain rfl := index_empty size1 size2 longest plainIndex
  exact ⟨before, imgName, sizeStr1, sizeStr2, rest, rfl, plain, size1, size2, first, texts.trans sizes⟩

theorem extractThumbInfo_some {self : ImageProcessor} {files : Files} {path : Bytes} {info : ThumbInfo}
    (accepted : self.extractThumbInfo files path = some info) :
    ∃ request : SizedRequest, info = request.info self files := by
  unfold ImageProcessor.extractThumbInfo at accepted
  split at accepted
  next first last imgName1 imgIndex sizeStr1 sizeStr2 hit =>
    obtain ⟨before, name, text1, text2, rest, -, plain, size1, size2, -, texts⟩ := find_thumbPattern hit
    simp only [List.cons.injEq, and_true] at texts
    obtain ⟨rfl, rfl, rfl, rfl⟩ := texts
    refine ⟨⟨imageFolder (Lua.sub path 0 first), imgName1, sizeStr1, sizeStr2, appendPathSimbol2Tail_isFolder _, plain,
      size1, size2⟩, ?_⟩
    rw [← Option.some.inj accepted]
    simp [SizedRequest.info, SizedRequest.requestImageName, SizedRequest.oriImgName, sizePart, bytes, imageFolder]
  next => cases accepted

namespace SizedRequest

/-- The name of a thumbnail falls apart at its last two underscores and at its last slash. -/
theorem requestImageName_inj {request other : SizedRequest}
    (same : request.requestImageName = other.requestImageName) : request = other := by
  obtain ⟨_, imgName, sizeStr1, sizeStr2, ⟨start, rfl⟩, plain, size1, size2⟩ := request
  obtain ⟨_, imgName', sizeStr1', sizeStr2', ⟨start', rfl⟩, plain', size1', size2'⟩ := other
  have bare {text : Bytes} (size : IsSize text) : (95 : UInt8) ∉ text ++ bytes ".jpg" := by
    have tail : (95 : UInt8) ∉ bytes ".jpg" := by decide
    simpa [tail] using size.not_mem (by decide)
  simp only [requestImageName, sizePart, List.append_nil] at same
  have shape (stem sizeStr1 sizeStr2 : Bytes) : stem ++ 95 :: (sizeStr1 ++ 95 :: (sizeStr2 ++ bytes ".jpg")) =
      (stem ++ 95 :: sizeStr1) ++ 95 :: (sizeStr2 ++ bytes ".jpg") := by simp
  rw [shape, shape] at same
  obtain ⟨names, last⟩ := split_at_last (bare size2) (bare size2') same
  obtain ⟨stems, sizes⟩ := split_at_last (size1.not_mem (by decide)) (size1'.not_mem (by decide)) names
  simp only [List.append_assoc, List.singleton_append] at stems
  obtain ⟨rfl, rfl⟩ := split_at_last plain plain' stems
  obtain rfl := List.append_cancel_right last
  obtain rfl := sizes
  rfl

end SizedRequest

/-- Two requests for one thumbnail are made from one picture and ask for one size. -/
theorem older_target_decides (self : ImageProcessor) {files files' : Files} {path path' : Bytes} {info info' : ThumbInfo}
    (accepted : self.extractThumbInfo files path = some info) (accepted' : self.extractThumbInfo files' path' = some info')
    (target : info.targetImageName = info'.targetImageName) :
    info.sourceImageName = info'.sourceImageName ∧ info.width = info'.width ∧ info.height = info'.height := by
  obtain ⟨request, rfl⟩ := extractThumbInfo_some accepted
  obtain ⟨other, rfl⟩ := extractThumbInfo_some accepted'
  obtain rfl := SizedRequest.requestImageName_inj (List.append_cancel_left target)
  exact ⟨rfl, rfl, rfl⟩

/-- The pattern is not anchored, so two paths can ask for the same thumbnail. -/
theorem older_target_decides_suffixed :
    let decoded := processor.extractThumbInfo fun _ => none
    ∃ info info', decoded (bytes "/upload/g5_60_0.jpg") = some info ∧
      decoded (bytes "/upload/g5_60_0.jpg.bak") = some info' ∧
      info.sourceImageName = info'.sourceImageName ∧ info.width = info'.width ∧ info.height = info'.height := by
  intro decoded
  obtain ⟨info, accepted⟩ : ∃ info, decoded (bytes "/upload/g5_60_0.jpg") = some info :=
    Option.isSome_iff_exists.mp (by decide +kernel)
  obtain ⟨info', accepted'⟩ : ∃ info', decoded (bytes "/upload/g5_60_0.jpg.bak") = some info' :=
    Option.isSome_iff_exists.mp (by decide +kernel)
  have target : (some info).map (·.targetImageName) = (some info').map (·.targetImageName) := by
    rw [← accepted, ← accepted']
    decide +kernel
  exact ⟨info, info', accepted, accepted', older_target_decides processor accepted accepted' (Option.some.inj target)⟩

variable {d : Bytes}

theorem sizePart_plain {sizeStr1 sizeStr2 : Bytes} (size1 : IsSize sizeStr1) (size2 : IsSize sizeStr2) :
    slash ∉ sizePart sizeStr1 sizeStr2 [] := by
  have letters : slash ∉ bytes ".jpg" := by decide
  have underscore : slash ≠ 95 := by decide
  simp only [sizePart, List.append_nil, List.mem_cons, List.mem_append, not_or]
  exact ⟨underscore, size1.not_mem (by decide), underscore, size2.not_mem (by decide), letters⟩

/-- The longest name before two sizes is the whole name. -/
theorem sizePart_unique {imgName name sizeStr1 sizeStr2 text1 text2 left : Bytes} (size1 : IsSize sizeStr1)
    (size2 : IsSize sizeStr2) (size1' : IsSize text1) (size2' : IsSize text2)
    (same : imgName ++ sizePart sizeStr1 sizeStr2 [] = name ++ sizePart text1 text2 left)
    (longest : ∀ more later, sizePart text1 text2 left = more ++ later → more ≠ [] → ¬ Fits galleryItems later) :
    imgName = name ∧ sizeStr1 = text1 ∧ sizeStr2 = text2 := by
  have underscores {text : Bytes} (size : IsSize text) : text.count 95 = 0 :=
    List.count_eq_zero.mpr (size.not_mem (by decide))
  have tail : (bytes ".jpg").count 95 = 0 := by decide
  have marks : (sizeStr1 ++ 95 :: (sizeStr2 ++ bytes ".jpg" ++ [])).count 95 ≤
      (text1 ++ 95 :: (text2 ++ bytes ".jpg" ++ left)).count 95 := by
    simp [List.count_append, underscores size1, underscores size2, tail]
    omega
  obtain ⟨sameName, sizes⟩ := split_at_marks same marks (fun more split =>
    Classical.byContradiction fun longer => longest more _ split longer (fits_galleryItems size1 size2 []))
  obtain ⟨sameSize1, -, rest⟩ := split_after_run size1.2 size1'.2 (by decide) (by decide) sizes
  simp only [List.append_assoc] at rest
  obtain ⟨sameSize2, -, -⟩ := split_after_run size2.2 size2'.2 (by decide) (by decide) rest
  exact ⟨sameName, sameSize1, sameSize2⟩

theorem find_sized {imgName sizeStr1 sizeStr2 : Bytes} (ends : IsFolder d)
    (clear : ∀ component, Between component d → ¬ HasSize component) (plain : slash ∉ imgName)
    (size1 : IsSize sizeStr1) (size2 : IsSize sizeStr2) :
    ∃ last, Lua.find (d ++ (imgName ++ sizePart sizeStr1 sizeStr2 [])) ImageProcessor.thumbPattern 1 =
      some ⟨d.length, last, [imgName, [], sizeStr1, sizeStr2]⟩ := by
  have plainLast : slash ∉ imgName ++ sizePart sizeStr1 sizeStr2 [] := by
    rw [List.mem_append, not_or]
    exact ⟨plain, sizePart_plain size1 size2⟩
  rw [find_compiled thumbPattern_compiled]
  obtain ⟨start, rfl⟩ := ends
  have some : (findFrom (componentPattern galleryItems)
      (start ++ [slash] ++ (imgName ++ sizePart sizeStr1 sizeStr2 [])) 1).isSome = true :=
    (findFrom_isSome_iff ..).mpr ⟨start, _, by simp, fits_component plain (fits_galleryItems size1 size2 [])⟩
  obtain ⟨found, hit⟩ := Option.isSome_iff_exists.mp some
  obtain ⟨name, rest, left, captures, shape, first, done, texts, longest⟩ := component_last galleryItems_inert
    galleryItems_takes ⟨start, rfl⟩ plainLast (fun inner between => mt hasSize_of_contains (clear inner between)) hit
  obtain ⟨imgIndex, text1, text2, rfl, -, plainIndex, size1', size2', sizes⟩ := match_galleryItems (by simp [Closed]) done
  obtain rfl := index_empty size1' size2' (fun more later split longer _ => longest more later split longer) plainIndex
  obtain ⟨rfl, rfl, rfl⟩ := sizePart_unique size1 size2 size1' size2' shape longest
  obtain ⟨position, last, captures⟩ := found
  simp only at first texts
  exact ⟨last, by rw [hit, first, texts, sizes]; rfl⟩

theorem clear_of_no_underscore (absent : (95 : UInt8) ∉ d) (component : Bytes) (between : Between component d) :
    ¬ HasSize component := by
  obtain ⟨-, before, after, rfl⟩ := between
  intro sized
  rw [HasSize, find_compiled sizePattern_compiled, findFrom_isSome_iff] at sized
  obtain ⟨earlier, tail, rfl, fits⟩ := sized
  obtain ⟨result, done⟩ := Option.isSome_iff_exists.mp fits
  obtain ⟨b, rest, rfl, underscore, -⟩ := match_one done
  obtain rfl := Lua.Class.eq_of_mem underscore
  exact absent (by simp)

/-- The index of a picture in a gallery becomes a part of its name, which is then no longer the one
that is renamed: only the picture without an index is found. -/
theorem gallery_original_iff (self : ImageProcessor) (files : Files) (begins : d.head? = some slash) (ends : IsFolder d)
    (clear : ∀ component, Between component d → ¬ HasSize component) {i width height : Bytes} (short : i.length ≤ 1)
    (digit : ∀ b ∈ i, isDigit b = true) (size1 : IsSize width) (size2 : IsSize height) :
    (∃ info, self.extractThumbInfo files
        (d ++ bytes "g" ++ i ++ bytes "_" ++ width ++ bytes "_" ++ height ++ bytes ".jpg") = some info ∧
      info.sourceImageName =
        self.originalImagesRoot ++ (if d = [slash] then [slash] else d.tail) ++ bytes "ori" ++ i ++ bytes ".jpg") ↔
      i = [] := by
  have plain : slash ∉ bytes "g" ++ i := by
    have letter : slash ∉ bytes "g" := by decide
    simp only [List.mem_append, not_or]
    exact ⟨letter, fun member => absurd (digit slash member) (by decide)⟩
  obtain ⟨last, hit⟩ := find_sized ends clear plain size1 size2
  have shape : d ++ bytes "g" ++ i ++ bytes "_" ++ width ++ bytes "_" ++ height ++ bytes ".jpg" =
      d ++ (bytes "g" ++ i ++ sizePart width height []) := by
    simp [sizePart, bytes]
  rw [← imageFolder_slashes begins ends, shape]
  simp only [ImageProcessor.extractThumbInfo, hit, sub_upto, List.take_left, Option.some.injEq, exists_eq_left']
  constructor
  · intro same
    by_contra some
    have other : bytes "g" ++ i ≠ bytes "g" := by simpa using some
    rw [if_neg other] at same
    simp only [imageFolder, List.append_assoc, List.append_cancel_left_eq] at same
    exact absurd (List.cons.inj same).1 (by decide)
  · intro none
    subst none
    simp [imageFolder]

theorem gallery_original_60 :
    ∃ info, processor.extractThumbInfo (fun _ => none) (bytes "/upload/g_60_0.jpg") = some info ∧
      info.sourceImageName = bytes "/www/images/public/upload/ori.jpg" := by
  have width : IsSize (bytes "60") := by decide +kernel
  have height : IsSize (bytes "0") := by decide +kernel
  have clear := @clear_of_no_underscore (bytes "/upload/") (by simp [bytes])
  have decoded := (gallery_original_iff processor (fun _ => none) (by decide +kernel) ⟨bytes "/upload", by simp [bytes, slash]⟩
    clear (show [].length ≤ 1 by simp) (by simp) width height).mpr rfl
  obtain ⟨info, accepted, source⟩ := decoded
  refine ⟨info, accepted, ?_⟩
  rw [source]
  decide +kernel

/-- The fifth picture of a gallery is looked for under the name that it has as a thumbnail. -/
theorem gallery_fifth_misnamed :
    (∀ component, Between component (bytes "/upload/") → ¬ HasSize component) ∧
      ¬ ∃ info, processor.extractThumbInfo (fun _ => none) (bytes "/upload/g5_60_0.jpg") = some info ∧
        info.sourceImageName = bytes "/www/images/public/upload/ori5.jpg" := by
  have decoded : (processor.extractThumbInfo (fun _ => none) (bytes "/upload/g5_60_0.jpg")).map (·.sourceImageName) =
      some (bytes "/www/images/public/upload/g5.jpg") := by decide +kernel
  refine ⟨clear_of_no_underscore (by decide), ?_⟩
  intro found
  obtain ⟨info, accepted, source⟩ := found
  rw [accepted, Option.map_some, source] at decoded
  exact absurd (Option.some.inj decoded) (by decide +kernel)

end ImageServer.ThumbnailServer
