import ImageServer.ImageLocator
import ImageServer.Proofs.ThumbInfo
import ImageServer.Thumbnail

/-! What the router hands over for a sized request, and what the thumbnail server makes of it.
The router writes sizes as `_W_H`; the thumbnail server looks for `.WxH.` and stores under
`_W*H`. -/

namespace ImageServer.ImageLocator
open Regex

/-- What the sized-image expression reads. -/
structure SizedName where
  base : Bytes
  width : Bytes
  height : Bytes
  extension : Bytes
  line : ∀ b ∈ base, dot b = true
  digits : width ≠ [] ∧ ∀ b ∈ width, isDigit b = true
  size : IsSize height
  known : ∃ text ∈ [bytes ".jpg", bytes ".gif", bytes ".png"],
    List.Forall₂ (fun b c => caseless b c = true) text extension

namespace SizedName

def sizes (name : SizedName) : Bytes := 95 :: (name.width ++ 95 :: name.height)

def path (name : SizedName) : Bytes := bytes "cms/giltstore/" ++ name.base ++ name.sizes ++ name.extension

def Of (name : SizedName) (uri : Bytes) : Prop :=
  ∃ groups, sizedRegex.search uri = some groups ∧ groups 1 = name.base ∧ groups 2 = name.sizes ∧
    groups 3 = name.extension

end SizedName

/-- `_\d+_[0-9*]+` reads two numerals, the second with stars. -/
theorem sizeRegex_reads {text rest : Bytes} {groups after : Groups} :
    sizeRegex.Reads text rest groups after ↔ after = groups ∧ ∃ width height, text = 95 :: (width ++ 95 :: height) ∧
      (width ≠ [] ∧ ∀ b ∈ width, isDigit b = true) ∧ IsSize height := by
  constructor
  · intro holds
    obtain ⟨_, _, _, rfl, ⟨⟨b, rfl, first⟩, rfl⟩, width, _, _, rfl, readWidth, _, height, _, rfl, ⟨⟨c, rfl, second⟩, rfl⟩,
      readHeight⟩ := holds
    obtain rfl := eq_of_caseless (by decide) first
    obtain rfl := eq_of_caseless (by decide) second
    obtain ⟨filled, digits, rfl⟩ := plus_reads.mp readWidth
    obtain ⟨some, all, rfl⟩ := plus_reads.mp readHeight
    refine ⟨rfl, width, height, rfl, ⟨filled, digits⟩, some, fun b member => ?_⟩
    simpa [isStarDigit] using all b member
  · intro holds
    obtain ⟨rfl, width, height, rfl, ⟨filled, digits⟩, some, all⟩ := holds
    refine ⟨[95], width ++ 95 :: height, after, rfl, ⟨⟨95, rfl, caseless_self 95⟩, rfl⟩, width, 95 :: height, after, rfl,
      plus_reads.mpr ⟨filled, digits, rfl⟩, [95], height, after, rfl, ⟨⟨95, rfl, caseless_self 95⟩, rfl⟩,
      plus_reads.mpr ⟨some, fun b member => ?_, rfl⟩⟩
    simpa [isStarDigit] using all b member

theorem extension_reads {text rest : Bytes} {groups after : Groups} :
    extension.Reads text rest groups after ↔ after = groups ∧ ∃ known ∈ [bytes ".jpg", bytes ".gif", bytes ".png"],
      List.Forall₂ (fun b c => caseless b c = true) known text := by
  simp only [extension, Reads, literal_reads, List.mem_cons, List.not_mem_nil, or_false, exists_eq_or_imp,
    exists_eq_left, ← or_and_right, and_comm]

/-- `([?].*)?$`. -/
theorem query_reads {index : Nat} {text rest : Bytes} {groups : Groups} :
    (∃ after, (query index).Reads text rest groups after) ↔
      (text = [] ∨ ∃ more, text = 63 :: more ∧ ∀ b ∈ more, dot b = true) ∧ (rest = [] ∨ rest = [10]) := by
  constructor
  · intro holds
    obtain ⟨_, text, _, _, rfl, optional, rfl, ends, rfl⟩ := holds
    rw [List.append_nil]
    refine ⟨?_, ends⟩
    rcases optional with ⟨_, ⟨_, more, _, rfl, ⟨⟨b, rfl, mark⟩, rfl⟩, line, rfl⟩, rfl⟩ | ⟨rfl, rfl⟩
    · obtain rfl := eq_of_caseless (by decide) mark
      exact Or.inr ⟨more, rfl, line⟩
    · exact Or.inl rfl
  · intro holds
    obtain ⟨rfl | ⟨more, rfl, line⟩, ends⟩ := holds
    · exact ⟨groups, [], [], groups, rfl, Or.inr ⟨rfl, rfl⟩, rfl, ends, rfl⟩
    · exact ⟨_, 63 :: more, [], _, (List.append_nil _).symm, Or.inl ⟨groups, ⟨[63], more, groups, rfl,
        ⟨⟨63, rfl, caseless_self 63⟩, rfl⟩, line, rfl⟩, rfl⟩, rfl, ends, rfl⟩

/-- The query group is the only one that the end of an expression touches. -/
theorem query_keeps {index other : Nat} {text rest : Bytes} {groups after : Groups}
    (reads : (query index).Reads text rest groups after) (different : other ≠ index) : after other = groups other := by
  obtain ⟨_, _, middle, -, optional, -, -, rfl⟩ := reads
  rcases optional with ⟨inner, ⟨_, _, _, -, ⟨-, rfl⟩, -, rfl⟩, rfl⟩ | ⟨-, rfl⟩
  · rw [Function.update_of_ne different]
  · rfl

theorem sized_name {uri : Bytes} {groups : Groups} (hit : sizedRegex.search uri = some groups) :
    ∃ name : SizedName, name.Of uri := by
  obtain ⟨before, text, rest, -, reads⟩ := search_some hit
  obtain ⟨_, _, _, -, readLocation, base, _, _, -, ⟨_, ⟨line, rfl⟩, rfl⟩, sizes, _, _, -, ⟨_, readSizes, rfl⟩, ext, _, _, -,
    ⟨_, readExt, rfl⟩, readQuery⟩ := reads
  obtain ⟨-, rfl⟩ := literal_reads.mp readLocation
  obtain ⟨rfl, width, height, shape, digits, size⟩ := sizeRegex_reads.mp readSizes
  obtain ⟨rfl, known⟩ := extension_reads.mp readExt
  refine ⟨⟨base, width, height, ext, line, digits, size, known⟩, groups, hit, ?_, ?_, ?_⟩
  · rw [query_keeps readQuery (by decide)]
    rfl
  · rw [query_keeps readQuery (by decide)]
    exact shape
  · rw [query_keeps readQuery (by decide)]
    rfl

theorem sized_iff (uri : Bytes) : (sizedRegex.search uri).isSome ↔
    ∃ (name : SizedName) (before location query rest : Bytes),
      uri = before ++ (location ++ name.base ++ name.sizes ++ name.extension ++ query ++ rest) ∧
      List.Forall₂ (fun b c => caseless b c = true) (bytes "/cms/giltstore/") location ∧
      (query = [] ∨ ∃ more, query = 63 :: more ∧ ∀ b ∈ more, dot b = true) ∧ (rest = [] ∨ rest = [10]) := by
  rw [search_isSome_iff]
  constructor
  · intro holds
    obtain ⟨before, _, rest, _, rfl, location, _, _, rfl, readLocation, base, _, _, rfl, ⟨_, ⟨line, rfl⟩, rfl⟩, _, _, _, rfl,
      ⟨_, readSizes, rfl⟩, ext, query, _, rfl, ⟨_, readExt, rfl⟩, readQuery⟩ := holds
    obtain ⟨pairs, rfl⟩ := literal_reads.mp readLocation
    obtain ⟨rfl, width, height, rfl, digits, size⟩ := sizeRegex_reads.mp readSizes
    obtain ⟨rfl, known⟩ := extension_reads.mp readExt
    obtain ⟨asked, ends⟩ := query_reads.mp ⟨_, readQuery⟩
    refine ⟨⟨base, width, height, ext, line, digits, size, known⟩, before, location, query, rest, ?_, pairs, asked, ends⟩
    simp [SizedName.sizes]
  · intro holds
    obtain ⟨name, before, location, query, rest, rfl, pairs, asked, ends⟩ := holds
    obtain ⟨after, readQuery⟩ := @query_reads 4 query rest
      (Function.update (Function.update (Function.update noGroups 1 name.base) 2 name.sizes) 3 name.extension) |>.mpr
      ⟨asked, ends⟩
    refine ⟨before, location ++ (name.base ++ (name.sizes ++ (name.extension ++ query))), rest, after, by simp, location, _,
      noGroups, rfl, literal_reads.mpr ⟨pairs, rfl⟩, name.base, _, _, rfl, ⟨_, ⟨name.line, rfl⟩, rfl⟩, name.sizes, _, _, rfl,
      ⟨_, sizeRegex_reads.mpr ⟨rfl, name.width, name.height, rfl, name.digits, name.size⟩, rfl⟩, name.extension, query, _, rfl,
      ⟨_, extension_reads.mpr ⟨rfl, name.known⟩, rfl⟩, readQuery⟩

def lookedUp (uri host : Bytes) : Bytes := removePathSimbolAtHead (giltstore uri host).reqPath

theorem giltstore_sized {uri : Bytes} {name : SizedName} (sized : name.Of uri) (host : Bytes) :
    lookedUp uri host = name.path ∧ (giltstore uri host).thumbnailSupport = bytes "1" := by
  obtain ⟨groups, hit, base, sizes, ext⟩ := sized
  have supported : bytes "1" ≠ bytes "0" := by decide
  have values : (giltstore uri host).reqPath = slash :: name.path ∧
      (giltstore uri host).thumbnailSupport = bytes "1" := by
    simp only [giltstore, hit, ite_self, if_neg supported, base, sizes, ext, and_true]
    simp [SizedName.path, bytes, slash]
  exact ⟨by rw [lookedUp, values.1, removePathSimbolAtHead_slash], values.2⟩

theorem locate_sized {files : Files} {uri : Bytes} {name : SizedName} (sized : name.Of uri) (host : Bytes)
    (noOriginal : isFileExists files (originalFile name.path) = false)
    (noThumbnail : isFileExists files (thumbnailFile name.path) = false) :
    locate files (giltstore uri host) = some (THUMNAIL_LOCATION ++ name.path) := by
  obtain ⟨path, supported⟩ := giltstore_sized sized host
  have on : bytes "1" ≠ bytes "0" := by decide
  have filled : name.path ≠ [] := by simp [SizedName.path, bytes]
  rw [lookedUp] at path
  simp [locate, getURI, path, supported, on, filled, noOriginal, noThumbnail]

/-- What is handed over arrives at the thumbnail server with a slash in front. -/
theorem outerThumbnail_handed {path : Bytes} (filled : path ≠ []) (line : ∀ b ∈ path, dot b = true) :
    outerThumbnail (THUMNAIL_LOCATION ++ path) = slash :: path := by
  obtain ⟨b, rest, rfl⟩ := List.exists_cons_of_ne_nil filled
  have first := line b List.mem_cons_self
  have all : ∀ c ∈ rest, dot c = true := fun c member => line c (List.mem_cons_of_mem b member)
  have here : (outerRegex.exec (THUMNAIL_LOCATION ++ b :: rest) noGroups fun _ groups => some groups) =
      some (Function.update noGroups 1 (b :: rest)) := by
    rw [outerRegex, exec, THUMNAIL_LOCATION, exec_literal, exec, plus, exec, exec, if_pos first, exec]
    apply manyThen_all all
    simp
  rw [outerThumbnail, search_start here]
  rfl

theorem read_from {text read : Bytes} (pairs : List.Forall₂ (fun b c => caseless b c = true) text read) {c : UInt8}
    (member : c ∈ read) : ∃ b ∈ text, caseless b c = true := by
  induction pairs with
  | nil => cases member
  | cons same _ ih =>
    rcases List.mem_cons.mp member with rfl | later
    · exact ⟨_, List.mem_cons_self, same⟩
    · obtain ⟨b, inside, found⟩ := ih later
      exact ⟨b, List.mem_cons_of_mem _ inside, found⟩

theorem line_of_read {text read : Bytes} (plain : (10 : UInt8) ∉ text)
    (pairs : List.Forall₂ (fun b c => caseless b c = true) text read) : ∀ b ∈ read, dot b = true := by
  intro b member
  obtain ⟨letter, inside, same⟩ := read_from pairs member
  simp only [dot, bne_iff_ne]
  intro feed
  rw [feed, caseless_comm] at same
  exact plain (eq_of_caseless (by decide) same ▸ inside)

theorem known_line : ∀ known ∈ [bytes ".jpg", bytes ".gif", bytes ".png"], (10 : UInt8) ∉ known := by decide

namespace SizedName

theorem extension_line (name : SizedName) : ∀ b ∈ name.extension, dot b = true := by
  obtain ⟨text, listed, pairs⟩ := name.known
  exact line_of_read (known_line text listed) pairs

theorem sizes_line (name : SizedName) : ∀ b ∈ name.sizes, dot b = true := by
  intro b member
  simp only [sizes, List.mem_cons, List.mem_append] at member
  simp only [dot, bne_iff_ne]
  rintro rfl
  rcases member with mark | inside | mark | inside
  · revert mark; decide
  · exact absurd (name.digits.2 10 inside) (by decide)
  · revert mark; decide
  · exact absurd (name.size.2 10 inside) (by decide)

theorem path_line (name : SizedName) : ∀ b ∈ name.path, dot b = true := by
  intro b member
  have location : ∀ c ∈ bytes "cms/giltstore/", dot c = true := by simp [bytes, dot]
  simp only [path, List.mem_append] at member
  rcases member with ((inside | inside) | inside) | inside
  · exact location b inside
  · exact name.line b inside
  · exact name.sizes_line b inside
  · exact name.extension_line b inside

theorem path_ne_nil (name : SizedName) : name.path ≠ [] := by simp [path, bytes]

end SizedName

/-- A sized request without a file reaches the program of the thumbnail server under its own
name. -/
theorem sized_request_arrives {files : Files} {uri : Bytes} {name : SizedName} (sized : name.Of uri) (host : Bytes)
    (noOriginal : isFileExists files (originalFile name.path) = false)
    (noThumbnail : isFileExists files (thumbnailFile name.path) = false) :
    (locate files (giltstore uri host)).map outerThumbnail = some (slash :: name.path) := by
  rw [locate_sized sized host noOriginal noThumbnail, Option.map_some,
    outerThumbnail_handed name.path_ne_nil name.path_line]

theorem folder_cases {path before tail : Bytes} (shape : slash :: path = before ++ slash :: tail) :
    let relativePath := appendPathSimbol2Tail (removePathSimbolAtHead ((slash :: path).take (before.length + 1)))
    (relativePath = [slash] ∧ path = tail) ∨ ∃ start, relativePath = start ++ [slash] ∧ path = start ++ slash :: tail := by
  have taken : (slash :: path).take (before.length + 1) = before ++ [slash] := by
    have cut : before ++ slash :: tail = (before ++ [slash]) ++ tail := by simp
    rw [shape, cut, List.take_left' (by simp)]
  rw [taken]
  cases before with
  | nil =>
    refine Or.inl ⟨?_, (List.cons.inj shape).2⟩
    rw [List.nil_append, removePathSimbolAtHead_slash, appendPathSimbol2Tail_nil]
  | cons b start =>
    obtain ⟨rfl, rest⟩ := List.cons.inj shape
    refine Or.inr ⟨start, ?_, rest⟩
    rw [List.cons_append, removePathSimbolAtHead_slash, appendPathSimbol2Tail_folder]

/-- A path that the thumbnail server accepts is stored under another name: a dot has become an
underscore. -/
theorem stored_elsewhere {self : ImageProcessor} {stored : Files} {path : Bytes} {info : ThumbInfo}
    (accepted : self.extractThumbInfo stored (slash :: path) = some info) : info.requestImageName ≠ path := by
  unfold ImageProcessor.extractThumbInfo at accepted
  split at accepted
  next first last oriImgName sizeStr1 sizeStr2 hit =>
    obtain ⟨before, name, text1, sep, text2, ext, rest, shape, plain, -, -, position, texts⟩ := find_thumbPattern hit
    simp only [List.cons.injEq, and_true] at texts
    obtain ⟨rfl, rfl, rfl⟩ := texts
    obtain rfl : first = before.length + 1 := position
    rw [← Option.some.inj accepted]
    simp only [Lua.sub_upto]
    intro same
    rcases folder_cases shape with ⟨folder, rfl⟩ | ⟨start, folder, rfl⟩
    · rw [folder] at same
      cases oriImgName with
      | nil => exact absurd (List.cons.inj same).1 (by decide)
      | cons b name => exact plain ((List.cons.inj same).1 ▸ List.mem_cons_self)
    · rw [folder] at same
      simp only [List.append_assoc, List.append_cancel_left_eq, List.singleton_append] at same
      have names := List.append_cancel_left (List.cons.inj same).2
      exact absurd (List.cons.inj names).1 (by decide)
  next => cases accepted

/-- The record of a request that the router handed over under `path`. -/
structure Decodes (processor : ImageProcessor) (name : SizedName) (path : Bytes) (info : ThumbInfo) : Prop where
  source : info.sourceImageName = processor.originalImagesRoot ++ bytes "cms/giltstore/" ++ name.base ++ name.extension
  width : info.width = ImageProcessor.sizeNumber name.width
  height : info.height = ImageProcessor.sizeNumber name.height
  /-- The thumbnail is stored where the next identical request looks. -/
  stored : info.requestImageName = path

/-- If neither candidate exists, the request reaches the thumbnail server and is understood. -/
def Agrees (self : ImageProcessor) (files stored : Files) (uri host : Bytes) (name : SizedName) : Prop :=
  isFileExists files (originalFile (lookedUp uri host)) = false →
  isFileExists files (thumbnailFile (lookedUp uri host)) = false →
  ∃ path info, locate files (giltstore uri host) = some (THUMNAIL_LOCATION ++ path) ∧
    self.extractThumbInfo stored (slash :: path) = some info ∧ Decodes self name (lookedUp uri host) info

theorem not_agrees {self : ImageProcessor} {files stored : Files} {uri : Bytes} {name : SizedName} (sized : name.Of uri)
    (host : Bytes) (noOriginal : isFileExists files (originalFile (lookedUp uri host)) = false)
    (noThumbnail : isFileExists files (thumbnailFile (lookedUp uri host)) = false) :
    ¬ Agrees self files stored uri host name := by
  intro agrees
  obtain ⟨path, info, handed, accepted, decodes⟩ := agrees noOriginal noThumbnail
  have looked := (giltstore_sized sized host).1
  rw [looked] at noOriginal noThumbnail decodes
  rw [locate_sized sized host noOriginal noThumbnail] at handed
  obtain rfl := List.append_cancel_left (Option.some.inj handed)
  exact stored_elsewhere accepted decodes.stored

/-- The two servers never understand each other: a sized request is served where it needs no
thumbnail server, and nowhere else. -/
theorem router_agrees_iff (self : ImageProcessor) (files stored : Files) (uri host : Bytes)
    (sized : (sizedRegex.search uri).isSome) :
    ∃ name : SizedName, name.Of uri ∧ (Agrees self files stored uri host name ↔
      isFileExists files (originalFile (lookedUp uri host)) = true ∨
        isFileExists files (thumbnailFile (lookedUp uri host)) = true) := by
  obtain ⟨groups, hit⟩ := Option.isSome_iff_exists.mp sized
  obtain ⟨name, captured⟩ := sized_name hit
  refine ⟨name, captured, ?_, ?_⟩
  · intro agrees
    by_contra absent
    rw [not_or, Bool.not_eq_true, Bool.not_eq_true] at absent
    exact not_agrees captured host absent.1 absent.2 agrees
  · intro present noOriginal noThumbnail
    rw [noOriginal, noThumbnail] at present
    rcases present with original | thumbnail
    · cases original
    · cases thumbnail

theorem plain_request_agrees_iff :
    ∃ name : SizedName, name.Of (bytes "/cms/giltstore/a_100_100.jpg") ∧
      (Agrees Thumbnail.processor (fun _ => none) (fun _ => none) (bytes "/cms/giltstore/a_100_100.jpg")
        (bytes "image.zoshow.com") name ↔
      isFileExists (fun _ => none)
        (originalFile (lookedUp (bytes "/cms/giltstore/a_100_100.jpg") (bytes "image.zoshow.com"))) = true ∨
      isFileExists (fun _ => none)
        (thumbnailFile (lookedUp (bytes "/cms/giltstore/a_100_100.jpg") (bytes "image.zoshow.com"))) = true) :=
  router_agrees_iff Thumbnail.processor (fun _ => none) (fun _ => none) (bytes "/cms/giltstore/a_100_100.jpg")
    (bytes "image.zoshow.com") (by decide +kernel)

theorem plain_request_lost :
    locate (fun _ => none) (giltstore (bytes "/cms/giltstore/a_100_100.jpg") (bytes "1.xiustatic.com")) =
      some (bytes "/outer_thumbnail/cms/giltstore/a_100_100.jpg") ∧
    Thumbnail.processor.extractThumbInfo (fun _ => none) (bytes "/cms/giltstore/a_100_100.jpg") = none ∧
    ¬ ∃ name : SizedName, name.Of (bytes "/cms/giltstore/a_100_100.jpg") ∧
      Agrees Thumbnail.processor (fun _ => none) (fun _ => none) (bytes "/cms/giltstore/a_100_100.jpg")
        (bytes "1.xiustatic.com") name := by
  refine ⟨by decide +kernel, by decide +kernel, ?_⟩
  intro agreed
  obtain ⟨name, captured, agrees⟩ := agreed
  exact not_agrees captured (bytes "1.xiustatic.com") rfl rfl agrees

end ImageServer.ImageLocator
