import ImageServer.Proofs.RouterGrammar

/-! Which uploads the router hands on under their own path. In the expression for images the bars
divide the whole group, so only the first alternative, the one for `.jpg`, has room for a name. -/

namespace ImageServer.ImageLocator
open Regex

def SameLetters (text read : Bytes) : Prop := List.Forall₂ (fun b c => caseless b c = true) text read

/-- What the group for the image can read. -/
def IsImage (image : Bytes) : Prop := ∃ base ext, image = base ++ ext ∧
  (SameLetters (bytes ".jpg") ext ∨ base = [] ∧ (SameLetters (bytes ".gif") ext ∨ SameLetters (bytes ".png") ext))

def IsQuery (query : Bytes) : Prop := query = [] ∨ ∃ more, query = 63 :: more

structure Recognised (path : Bytes) : Prop where
  line : ∀ b ∈ path, dot b = true
  parts : ∃ image query, path = image ++ query ∧ IsImage image ∧ IsQuery query

def locations : List Bytes := [INNER_IMAGE_LOCATION, INNER_THUMBNAIL_LOCATION, THUMNAIL_LOCATION]

/-- The request goes to an internal location under its own path. -/
def Routed (files : Files) (host path : Bytes) : Prop :=
  ∃ location ∈ locations,
    locate files (upload (bytes "/upload/" ++ path) host) = some (location ++ (bytes "upload/" ++ path))

theorem image_reads {text rest : Bytes} {groups after : Groups} :
    (alt (cat (many dot) (literal (bytes ".jpg"))) (alt (literal (bytes ".gif")) (literal (bytes ".png")))).Reads
      text rest groups after ↔ after = groups ∧ (∀ b ∈ text, dot b = true) ∧ IsImage text := by
  constructor
  · intro holds
    rcases holds with ⟨base, ext, _, rfl, ⟨line, rfl⟩, jpg⟩ | gif | png
    · obtain ⟨pairs, rfl⟩ := literal_reads.mp jpg
      exact ⟨rfl, List.forall_mem_append.mpr ⟨line, line_of_read (known_line _ (by simp)) pairs⟩, base, ext, rfl, .inl pairs⟩
    · obtain ⟨pairs, rfl⟩ := literal_reads.mp gif
      exact ⟨rfl, line_of_read (known_line _ (by simp)) pairs, [], text, rfl, .inr ⟨rfl, .inl pairs⟩⟩
    · obtain ⟨pairs, rfl⟩ := literal_reads.mp png
      exact ⟨rfl, line_of_read (known_line _ (by simp)) pairs, [], text, rfl, .inr ⟨rfl, .inr pairs⟩⟩
  · intro holds
    obtain ⟨rfl, line, base, ext, rfl, jpg | ⟨rfl, gif | png⟩⟩ := holds
    · exact .inl ⟨base, ext, after, rfl, ⟨(List.forall_mem_append.mp line).1, rfl⟩, literal_reads.mpr ⟨jpg, rfl⟩⟩
    · exact .inr (.inl (literal_reads.mpr ⟨gif, rfl⟩))
    · exact .inr (.inr (literal_reads.mpr ⟨png, rfl⟩))

/-- An empty query leaves its group alone, which was empty before. -/
theorem query_group {index : Nat} {text rest : Bytes} {groups after : Groups} (empty : groups index = [])
    (reads : (query index).Reads text rest groups after) : after index = text := by
  obtain ⟨text, _, middle, rfl, optional, rfl, -, rfl⟩ := reads
  rw [List.append_nil]
  rcases optional with ⟨inner, -, rfl⟩ | ⟨rfl, rfl⟩
  · exact Function.update_self ..
  · exact empty

theorem upload_reads {text rest : Bytes} {groups : Groups} (reads : uploadImageRegex.Reads text rest noGroups groups) :
    ∃ location, text = location ++ (groups 1 ++ groups 2) ∧ location.length = (bytes "/upload/").length ∧
      Recognised (groups 1 ++ groups 2) ∧ (rest = [] ∨ rest = [10]) := by
  obtain ⟨location, _, _, rfl, readLocation, image, text, _, rfl, ⟨_, readImage, rfl⟩, readQuery⟩ := reads
  obtain ⟨pairs, rfl⟩ := literal_reads.mp readLocation
  obtain ⟨rfl, line, shape⟩ := image_reads.mp readImage
  have first := query_keeps readQuery (show 1 ≠ 2 by decide)
  have second := query_group rfl readQuery
  rw [Function.update_self] at first
  obtain ⟨asked, ends⟩ := query_reads.mp ⟨_, readQuery⟩
  rw [first, second]
  refine ⟨location, rfl, pairs.length_eq.symm, ⟨?_, image, text, rfl, shape, ?_⟩, ends⟩
  · apply List.forall_mem_append.mpr ⟨line, ?_⟩
    obtain rfl | ⟨more, rfl, later⟩ := asked
    · simp
    · simpa [dot] using later
  · exact asked.imp id (Exists.imp fun _ => And.left)

/-- The two groups give the path back exactly where it is recognised. -/
theorem search_whole_iff (path : Bytes) :
    (∃ groups, uploadImageRegex.search (bytes "/upload/" ++ path) = some groups ∧ groups 1 ++ groups 2 = path) ↔
      Recognised path := by
  constructor
  · intro holds
    obtain ⟨groups, hit, rfl⟩ := holds
    obtain ⟨before, text, rest, -, reads⟩ := search_some hit
    obtain ⟨location, -, -, recognised, -⟩ := upload_reads reads
    exact recognised
  · intro recognised
    obtain ⟨line, image, query, rfl, shape, asked⟩ := recognised
    obtain ⟨lineImage, lineQuery⟩ := List.forall_mem_append.mp line
    have askedLine : query = [] ∨ ∃ more, query = 63 :: more ∧ ∀ b ∈ more, dot b = true := by
      obtain empty | ⟨more, rfl⟩ := asked
      · exact .inl empty
      · exact .inr ⟨more, rfl, fun b member => lineQuery b (List.mem_cons_of_mem 63 member)⟩
    obtain ⟨after, readQuery⟩ := @query_reads 2 query [] (Function.update noGroups 1 image) |>.mpr ⟨askedLine, .inl rfl⟩
    have reads : uploadImageRegex.Reads (bytes "/upload/" ++ (image ++ query)) [] noGroups after :=
      ⟨_, _, _, rfl, literal_reads.mpr ⟨List.forall₂_same.mpr fun b _ => caseless_self b, rfl⟩, image, query, _, rfl,
        ⟨_, image_reads.mpr ⟨rfl, lineImage, shape⟩, rfl⟩, readQuery⟩
    have found := @exec_isSome _ _ _ _ _ _ (fun _ groups => some groups) reads rfl
    rw [List.append_nil] at found
    obtain ⟨groups, here⟩ := Option.isSome_iff_exists.mp found
    obtain ⟨text, rest, after, split, reads', same⟩ := exec_some here
    obtain rfl := Option.some.inj same
    obtain ⟨location, rfl, long, -, rfl | rfl⟩ := upload_reads reads'
    · rw [List.append_nil] at split
      exact ⟨_, search_start here, (List.append_inj split long.symm).2.symm⟩
    · have feed : (10 : UInt8) ∈ bytes "/upload/" ++ (image ++ query) := by
        rw [split]
        exact List.mem_append_right _ (List.mem_singleton_self 10)
      have upload : (10 : UInt8) ∉ bytes "/upload/" := by simp [bytes]
      exact absurd (line 10 ((List.mem_append.mp feed).resolve_left upload)) (by decide)

section Locate
variable {files : Files} {host uri : Bytes} (supported : (upload uri host).thumbnailSupport = bytes "1")
include supported

theorem locate_none (missed : uploadImageRegex.search uri = none) : locate files (upload uri host) = none := by
  have on : bytes "1" ≠ bytes "0" := by decide
  have path : (upload uri host).reqPath = [] := by simp only [upload, missed]
  rw [locate, getURI, supported, if_neg on, path]
  rfl

theorem locate_some {groups : Groups} (hit : uploadImageRegex.search uri = some groups) :
    ∃ location ∈ locations, locate files (upload uri host) = some (location ++ (bytes "upload/" ++ (groups 1 ++ groups 2))) := by
  have on : bytes "1" ≠ bytes "0" := by decide
  have path : (upload uri host).reqPath = slash :: (bytes "upload/" ++ (groups 1 ++ groups 2)) := by
    simp only [upload, hit]
    simp [bytes, slash]
  have filled : bytes "upload/" ++ (groups 1 ++ groups 2) ≠ [] := by simp [bytes]
  rw [locate, getURI, supported, if_neg on, path, removePathSimbolAtHead_slash, if_neg filled]
  split
  · exact ⟨INNER_IMAGE_LOCATION, by simp [locations], rfl⟩
  · split
    · exact ⟨INNER_THUMBNAIL_LOCATION, by simp [locations], rfl⟩
    · exact ⟨THUMNAIL_LOCATION, by simp [locations], rfl⟩

end Locate

theorem locations_begin : (∀ location ∈ locations, 11 ≤ location.length) ∧
    ∀ first ∈ locations, ∀ second ∈ locations, first.take 11 = second.take 11 → first = second := by decide +kernel

theorem locations_apart {first second path path' : Bytes} (listed : first ∈ locations) (listed' : second ∈ locations)
    (same : first ++ path = second ++ path') : path = path' := by
  obtain ⟨long, apart⟩ := locations_begin
  have begins := congrArg (List.take 11) same
  rw [List.take_append_of_le_length (long first listed), List.take_append_of_le_length (long second listed')] at begins
  obtain rfl := apart first listed second listed' begins
  exact List.append_cancel_left same

/-- With thumbnails on, the path of an upload survives the router on these paths and no others. -/
theorem upload_routed_iff (files : Files) (host path : Bytes)
    (supported : (upload (bytes "/upload/" ++ path) host).thumbnailSupport = bytes "1") :
    Routed files host path ↔ Recognised path := by
  rw [← search_whole_iff]
  constructor
  · intro routed
    obtain ⟨location, listed, located⟩ := routed
    cases hit : uploadImageRegex.search (bytes "/upload/" ++ path) with
    | none =>
      rw [locate_none supported hit] at located
      cases located
    | some groups =>
      obtain ⟨location', listed', located'⟩ := @locate_some files _ _ supported _ hit
      rw [located'] at located
      have paths := locations_apart listed' listed (Option.some.inj located)
      exact ⟨groups, rfl, List.append_cancel_left paths⟩
  · intro whole
    obtain ⟨groups, hit, same⟩ := whole
    obtain ⟨location, listed, located⟩ := @locate_some files _ _ supported _ hit
    rw [same] at located
    exact ⟨location, listed, located⟩

theorem upload_routed_jpg : Routed (fun _ => none) (bytes "image.zoshow.com") (bytes "a.JPG") := by
  apply (upload_routed_iff (fun _ => none) (bytes "image.zoshow.com") (bytes "a.JPG") (by decide +kernel)).mpr
  have same : SameLetters (bytes ".jpg") (bytes ".JPG") := by simp [SameLetters, bytes, caseless]
  exact ⟨by simp [bytes, dot], bytes "a.JPG", [], by simp, ⟨bytes "a", bytes ".JPG", by simp [bytes], .inl same⟩, .inl rfl⟩

/-- A GIF with a name gets no address. -/
theorem upload_gif_lost : (upload (bytes "/upload/a.gif") (bytes "image.zoshow.com")).thumbnailSupport = bytes "1" ∧
    locate (fun _ => none) (upload (bytes "/upload/a.gif") (bytes "image.zoshow.com")) = none ∧
    ¬ Routed (fun _ => none) (bytes "image.zoshow.com") (bytes "a.gif") := by
  have lost : locate (fun _ => none) (upload (bytes "/upload/a.gif") (bytes "image.zoshow.com")) = none := by decide +kernel
  have address : bytes "/upload/a.gif" = bytes "/upload/" ++ bytes "a.gif" := by simp [bytes]
  refine ⟨by decide +kernel, lost, fun routed => ?_⟩
  obtain ⟨location, -, located⟩ := routed
  rw [← address, lost] at located
  cases located

end ImageServer.ImageLocator
