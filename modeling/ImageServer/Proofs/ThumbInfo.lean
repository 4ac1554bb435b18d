import ImageServer.Proofs.ComponentPatterns
import ImageServer.Thumbnail

/-! The requests that `extractThumbInfo` accepts, as structured names. The name of a
thumbnail determines the source it is made from; it does not determine the size. -/

namespace ImageServer
open Lua

/-- A size text: digits and stars, at least one of them. -/
def IsSize (text : Bytes) : Prop := text ≠ [] ∧ ∀ b ∈ text, isDigit b = true ∨ b = 42

instance (text : Bytes) : Decidable (IsSize text) := inferInstanceAs (Decidable (_ ∧ _))

theorem sizeNumber_eq {text : Bytes} (size : IsSize text) :
    ImageProcessor.sizeNumber text =
      if text = bytes "0" ∨ 42 ∈ text then none else some (.nearest (decimal text)) := by
  by_cases starred : (42 : UInt8) ∈ text
  · have notDigits : text.all isDigit = false := by
      rw [List.all_eq_false]
      exact ⟨42, starred, by decide⟩
    simp [ImageProcessor.sizeNumber, tonumber, notDigits, starred]
  · have digits : text.all isDigit = true := by
      rw [List.all_eq_true]
      intro b member
      rcases size.2 b member with digit | rfl
      · exact digit
      · exact absurd member starred
    have notStar : text ≠ bytes "*" := by
      rintro rfl
      exact starred (by decide)
    by_cases zero : text = bytes "0" <;> simp [ImageProcessor.sizeNumber, tonumber, digits, size.1, starred, notStar, zero]

/-- What an accepted path is made of, after `extractThumbInfo` has normalised it. -/
structure SizedRequest where
  relativePath : Bytes
  oriImgName : Bytes
  sizeStr1 : Bytes
  sizeStr2 : Bytes
  suffix : Bytes
  folder : IsFolder relativePath
  plain : slash ∉ oriImgName
  size1 : IsSize sizeStr1
  size2 : IsSize sizeStr2
  four : suffix.length = 4

namespace SizedRequest

def sizes (request : SizedRequest) : Bytes := request.sizeStr1 ++ 42 :: request.sizeStr2

def stem (request : SizedRequest) : Bytes := request.relativePath ++ request.oriImgName

def requestImageName (request : SizedRequest) : Bytes := request.stem ++ 95 :: request.sizes ++ request.suffix

def sourceImageName (request : SizedRequest) (self : ImageProcessor) : Bytes :=
  self.originalImagesRoot ++ request.stem ++ request.suffix

def targetImageName (request : SizedRequest) (self : ImageProcessor) : Bytes :=
  self.thumbnailImagesRoot ++ request.requestImageName

def info (request : SizedRequest) (self : ImageProcessor) (files : Files) : ThumbInfo where
  isThumbRequest := true
  targetFileExists := isFileExists files (request.targetImageName self)
  sourceImageName := request.sourceImageName self
  requestImageName := request.requestImageName
  targetFolder := self.thumbnailImagesRoot ++ request.relativePath
  targetImageName := request.targetImageName self
  width := ImageProcessor.sizeNumber request.sizeStr1
  height := ImageProcessor.sizeNumber request.sizeStr2

end SizedRequest

/-- The two size texts of a path, as the pattern captures them. -/
def sizeTexts (path : Bytes) : Option (Bytes × Bytes) :=
  match Lua.find path ImageProcessor.thumbPattern 1 with
  | some ⟨_, _, [_, sizeStr1, sizeStr2]⟩ => some (sizeStr1, sizeStr2)
  | _ => none

/-- The directory of a path: everything up to the slash at which the pattern matches. -/
def requestFolder (path pattern : Bytes) : Bytes :=
  match Lua.find path pattern 1 with
  | some found => path.take found.first
  | none => []

def sizeClass : Lua.Class := .set false [(48, 57), (42, 42)]

def extClass : Lua.Class :=
  .set false [(112, 112), (110, 110), (103, 103), (124, 124), (106, 106), (112, 112), (103, 103), (124, 124),
    (103, 103), (105, 105), (102, 102)]

def sizeItems : Lua.Pattern :=
  [.single (.set false [(46, 46)]) .one, .opening, .single sizeClass .plus, .closing,
    .single (.set false [(88, 88), (124, 124), (120, 120)]) .one, .opening, .single sizeClass .plus, .closing,
    .single (.set false [(46, 46)]) .one, .single extClass .one]

theorem thumbPattern_compiled : compile ImageProcessor.thumbPattern = some (componentPattern sizeItems) := by decide

theorem sizeClass_iff (b : UInt8) : sizeClass.mem b = true ↔ isDigit b = true ∨ b = 42 := by
  simp [sizeClass, Class.mem, isDigit, UInt8.le_iff_toNat_le, ← UInt8.toNat_inj]
  omega

theorem isSize_of_class {text : Bytes} (some : text ≠ []) (all : ∀ b ∈ text, sizeClass.mem b = true) : IsSize text :=
  ⟨some, fun b member => (sizeClass_iff b).mp (all b member)⟩

theorem IsSize.not_mem {text : Bytes} (size : IsSize text) {b : UInt8} (other : ¬ (isDigit b = true ∨ b = 42)) :
    b ∉ text :=
  fun member => other (size.2 b member)

/-- A captured size text is matched to its end. -/
theorem IsSize.fits {text rest : Bytes} {items : Lua.Pattern} (size : IsSize text) (fits : Fits items rest) :
    Fits (.opening :: .single sizeClass .plus :: .closing :: items) (text ++ rest) := by
  have inside (b : UInt8) (member : b ∈ text) := (sizeClass_iff b).mpr (size.2 b member)
  apply Fits.opening
  apply Fits.plus size.1 inside
  apply Fits.closing
  exact fits

/-- The bytes that may stand between the two sizes. -/
def IsSeparator (b : UInt8) : Prop := b = 88 ∨ b = 124 ∨ b = 120

instance (b : UInt8) : Decidable (IsSeparator b) := inferInstanceAs (Decidable (_ ∨ _))

theorem separator_iff (b : UInt8) :
    (Lua.Class.set false [(88, 88), (124, 124), (120, 120)]).mem b = true ↔ IsSeparator b := by
  simp [Class.mem, IsSeparator, UInt8.le_iff_toNat_le, ← UInt8.toNat_inj]
  omega

theorem match_sizeItems {text left : Bytes} {captures captures' : List Capture} (closed : Closed captures)
    (done : matchItems sizeItems text captures = some (left, captures')) :
    ∃ sizeStr1 sep sizeStr2 ext,
      text = 46 :: (sizeStr1 ++ sep :: (sizeStr2 ++ 46 :: ext :: left)) ∧
      IsSize sizeStr1 ∧ IsSeparator sep ∧ IsSize sizeStr2 ∧
      captures'.filterMap (·.text) = captures.filterMap (·.text) ++ [sizeStr1, sizeStr2] := by
  obtain ⟨dot, t, rfl, dotClass, afterDot⟩ := match_one done
  obtain ⟨sizeStr1, t, rfl, some1, class1, afterSize1⟩ := capture_plus closed afterDot
  obtain ⟨sep, t, rfl, sepClass, afterSep⟩ := match_one afterSize1
  obtain ⟨sizeStr2, t, rfl, some2, class2, afterSize2⟩ := capture_plus (closed.snoc _ _) afterSep
  obtain ⟨dot', t, rfl, dotClass', afterDot'⟩ := match_one afterSize2
  obtain ⟨ext, t, rfl, -, afterExt⟩ := match_one afterDot'
  obtain ⟨rfl, rfl⟩ := Prod.mk.inj (match_nil afterExt)
  obtain rfl := Lua.Class.eq_of_mem dotClass
  obtain rfl := Lua.Class.eq_of_mem dotClass'
  exact ⟨sizeStr1, sep, sizeStr2, ext, rfl, isSize_of_class some1 class1, (separator_iff sep).mp sepClass,
    isSize_of_class some2 class2, by simp⟩

theorem find_thumbPattern {path : Bytes} {found : Found}
    (hit : Lua.find path ImageProcessor.thumbPattern 1 = some found) :
    ∃ before name sizeStr1 sep sizeStr2 ext rest,
      path = before ++ slash :: (name ++ 46 :: (sizeStr1 ++ sep :: (sizeStr2 ++ 46 :: ext :: rest))) ∧
      slash ∉ name ∧ IsSize sizeStr1 ∧ IsSize sizeStr2 ∧
      found.first = before.length + 1 ∧ found.captures = [name, sizeStr1, sizeStr2] := by
  rw [find_compiled thumbPattern_compiled] at hit
  obtain ⟨before, name, tail, rest, captures, rfl, plain, first, done, texts, -, -⟩ := component_some hit
  obtain ⟨sizeStr1, sep, sizeStr2, ext, rfl, size1, -, size2, sizes⟩ := match_sizeItems (by simp [Closed]) done
  exact ⟨before, name, sizeStr1, sep, sizeStr2, ext, rest, rfl, plain, size1, size2, first, texts.trans sizes⟩

/-- The request that an accepted path stands for. -/
structure SizedRequest.Of (request : SizedRequest) (path : Bytes) : Prop where
  sizes : sizeTexts path = some (request.sizeStr1, request.sizeStr2)
  folder : request.relativePath =
    appendPathSimbol2Tail (removePathSimbolAtHead (requestFolder path ImageProcessor.thumbPattern))

theorem extractThumbInfo_some {self : ImageProcessor} {files : Files} {path : Bytes} {info : ThumbInfo}
    (accepted : self.extractThumbInfo files path = some info) :
    ∃ request : SizedRequest, request.Of path ∧ info = request.info self files := by
  unfold ImageProcessor.extractThumbInfo at accepted
  split at accepted
  next first last oriImgName sizeStr1 sizeStr2 hit =>
    obtain ⟨before, name, text1, sep, text2, ext, rest, shape, plain, size1, size2, -, texts⟩ := find_thumbPattern hit
    simp only [List.cons.injEq, and_true] at texts
    obtain ⟨rfl, rfl, rfl⟩ := texts
    have long : 4 ≤ path.length := by
      have some1 := List.length_pos_of_ne_nil size1.1
      rw [shape]
      simp
      omega
    have four : (Lua.sub path (Lua.len path - 3) (Lua.len path)).length = 4 := by
      rw [sub_last_four path (by omega), List.length_drop]
      omega
    let folder := removePathSimbolAtHead (requestFolder path ImageProcessor.thumbPattern)
    refine ⟨⟨appendPathSimbol2Tail folder, oriImgName, sizeStr1, sizeStr2, _, appendPathSimbol2Tail_isFolder _,
      plain, size1, size2, four⟩, ⟨by simp [sizeTexts, hit], rfl⟩, ?_⟩
    rw [← Option.some.inj accepted]
    simp [SizedRequest.info, SizedRequest.targetImageName, SizedRequest.sourceImageName, folder,
      SizedRequest.requestImageName, SizedRequest.stem, SizedRequest.sizes, sub_upto, bytes, requestFolder, hit]
  next => cases accepted

theorem extractThumbInfo_files {self : ImageProcessor} {files : Files} {path : Bytes} {info : ThumbInfo}
    (accepted : self.extractThumbInfo files path = some info) (later : Files) :
    self.extractThumbInfo later path =
      some { info with targetFileExists := isFileExists later info.targetImageName } := by
  unfold ImageProcessor.extractThumbInfo at accepted ⊢
  split at accepted
  next =>
    rw [← Option.some.inj accepted]
  next => cases accepted

theorem extractThumbInfo_present {self : ImageProcessor} {files : Files} {path : Bytes} {info : ThumbInfo}
    (accepted : self.extractThumbInfo files path = some info) :
    info.targetFileExists = isFileExists files info.targetImageName := by
  obtain ⟨request, -, rfl⟩ := extractThumbInfo_some accepted
  rfl

theorem target_under_root {self : ImageProcessor} {files : Files} {path : Bytes} {info : ThumbInfo}
    (accepted : self.extractThumbInfo files path = some info) : self.thumbnailImagesRoot <+: info.targetImageName := by
  obtain ⟨request, -, rfl⟩ := extractThumbInfo_some accepted
  exact List.prefix_append _ _

/-- Text after the last occurrence of a mark determines where it is. -/
theorem split_at_last {mark : UInt8} {first first' second second' : Bytes} (absent : mark ∉ second)
    (absent' : mark ∉ second') (same : first ++ mark :: second = first' ++ mark :: second') :
    first = first' ∧ second = second' := by
  rcases List.append_eq_append_iff.mp same with ⟨between, rfl, tail⟩ | ⟨between, rfl, tail⟩
  · cases between with
    | nil => exact ⟨by simp, (List.cons.inj tail).2⟩
    | cons b between =>
      have inside := (List.cons.inj tail).2
      exact absurd (inside ▸ by simp) absent
  · cases between with
    | nil => exact ⟨by simp, (List.cons.inj tail).2.symm⟩
    | cons b between =>
      have inside := (List.cons.inj tail).2
      exact absurd (inside ▸ by simp) absent'

namespace SizedRequest

theorem sizes_no_underscore (request : SizedRequest) : (95 : UInt8) ∉ request.sizes := by
  simp only [sizes, List.mem_append, List.mem_cons, not_or]
  exact ⟨request.size1.not_mem (by decide), by decide, request.size2.not_mem (by decide)⟩

/-- The name of a thumbnail falls apart at its last underscore and four bytes from its end. -/
theorem requestImageName_inj {request other : SizedRequest}
    (same : request.requestImageName = other.requestImageName) :
    request.stem = other.stem ∧ request.sizes = other.sizes ∧ request.suffix = other.suffix := by
  have ends := List.append_inj' same (by rw [request.four, other.four])
  obtain ⟨stem, sizes⟩ := split_at_last request.sizes_no_underscore other.sizes_no_underscore ends.1
  exact ⟨stem, sizes, ends.2⟩

theorem source_of_target {request other : SizedRequest} (self : ImageProcessor)
    (same : request.targetImageName self = other.targetImageName self) :
    request.sourceImageName self = other.sourceImageName self := by
  obtain ⟨stem, -, suffix⟩ := requestImageName_inj (List.append_cancel_left same)
  rw [sourceImageName, sourceImageName, stem, suffix]

end SizedRequest
end ImageServer
