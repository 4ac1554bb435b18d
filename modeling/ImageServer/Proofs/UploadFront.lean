import ImageServer.Proofs.Scripts
import ImageServer.UploadFront

/-! What a client gets for the address of an upload: the upload, or the picture that was made for a name
like the one asked for, of its own source; and whatever a client got once, every client gets later. -/

namespace ImageServer.UploadFront
open Regex Runs WriteOnce

theorem reqPath_rewritten {uri : Bytes} (rewritten : (rewriteRegex.search uri).isSome = true) :
    ∃ path, reqPath uri = bytes "/upload/" ++ path := by
  obtain ⟨before, text, rest, groups, shape, upload, path, middle, rfl, location, read⟩ :=
    (search_isSome_iff rewriteRegex uri).mp rewritten
  obtain ⟨rfl, rfl⟩ := exactly_reads.mp location
  have caseless' : List.Forall₂ (fun b c => caseless b c = true) (bytes "/upload/") (bytes "/upload/") :=
    List.forall₂_same.mpr fun b _ => caseless_self b
  have reads : uploadRegex.Reads (bytes "/upload/" ++ path) rest noGroups groups :=
    ⟨_, path, noGroups, rfl, literal_reads.mpr ⟨caseless', rfl⟩, read⟩
  have found := (search_isSome_iff uploadRegex uri).mpr ⟨before, _, rest, groups, shape, reads⟩
  obtain ⟨groups, hit⟩ := Option.isSome_iff_exists.mp found
  exact ⟨groups 1, by rw [reqPath, hit]⟩

theorem reqPath_shape (uri : Bytes) : reqPath uri = [] ∨ ∃ path, reqPath uri = bytes "/upload/" ++ path := by
  unfold reqPath
  split
  next groups hit => exact Or.inr ⟨groups 1, rfl⟩
  next => exact Or.inl rfl

theorem sent_inner (path : Bytes) :
    sent (bytes "/innerImages" ++ (bytes "/upload/" ++ path)) = image_root ++ (bytes "upload/" ++ path) := by
  have other : (bytes "/thumbnail/").isPrefixOf (bytes "/innerImages" ++ (bytes "/upload/" ++ path)) = false := rfl
  have shape : bytes "/innerImages" ++ (bytes "/upload/" ++ path) = bytes "/innerImages/" ++ (bytes "upload/" ++ path) := rfl
  have begins : (bytes "/innerImages/").isPrefixOf (bytes "/innerImages/" ++ (bytes "upload/" ++ path)) = true :=
    List.isPrefixOf_iff_prefix.mpr (List.prefix_append _ _)
  rw [sent, if_neg (Bool.eq_false_iff.mp other), shape, if_pos begins, List.drop_left]

theorem sent_thumbnail (path : Bytes) : sent (bytes "/thumbnail/" ++ path) = image_root ++ bytes "thumbnail/" ++ path := by
  have begins : (bytes "/thumbnail/").isPrefixOf (bytes "/thumbnail/" ++ path) = true :=
    List.isPrefixOf_iff_prefix.mpr (List.prefix_append _ _)
  rw [sent, if_pos begins, List.drop_left]

/-- The folders of nginx lead to those of the script. A doubled slash in a path means nothing, and no upload
lies among the thumbnails. -/
structure Mounts (mounted : Bytes → Bytes) : Prop where
  uploads : ∀ path, mounted (image_root ++ (bytes "upload/" ++ path)) = mounted (image_root ++ (bytes "/upload/" ++ path))
  thumbnails : ∀ path, mounted (image_root ++ bytes "thumbnail/" ++ path) = Thumbnail.processor.thumbnailImagesRoot ++ path
  separate : ∀ (script : Script) path,
    ¬ script.processor.thumbnailImagesRoot <+: mounted (image_root ++ (bytes "/upload/" ++ path))

variable {mounted : Bytes → Bytes}

theorem generate_world (host : Host) (path : Bytes) (world : World) :
    (generate mounted host path world).2 = Script.serve world ⟨.thumbnail, host, path⟩ := by
  simp only [generate, Script.serve, Script.main]
  rcases Thumbnail.main host path world with ⟨_ | _ | _, after⟩ <;> rfl

/-- If the address goes to the script, the call is a careful one. -/
def Careful (mounted : Bytes → Bytes) (world : World) (request : Request) : Prop :=
  isUpload request.uri = true → uploaded mounted world.files request.uri = none →
    Script.Careful world ⟨.thumbnail, request.host, reqPath request.uri⟩

theorem step_adds {world : World} {request : Request} (careful : Careful mounted world request) :
    Adds Script.Shown world.files (step mounted world request).files := by
  unfold step serve
  split
  next upload =>
    split
    · split <;> exact .nothing rfl
    next missing =>
      rw [generate_world]
      exact Script.serve_adds (careful upload (Option.not_isSome_iff_eq_none.mp missing))
  next => split <;> exact .nothing rfl

theorem run_grown {start : World} {requests : List Request}
    (careful : Along (step mounted) (Careful mounted) start requests) :
    Grown Script.Shown start.files (run (step mounted) start requests).files :=
  @WriteOnce.run_grown _ _ _ _ _ Script.Shown (step mounted) World.files _ Script.shown_lasting
    (fun _ _ careful => step_adds careful) start requests careful

theorem main_setUri {host : Host} {path uri : Bytes} {world after : World} :
    Thumbnail.main host path world = (.ok (.setUri uri), after) ↔
      resolveImageURI host Thumbnail.processor path world = (.ok (some uri), after) := by
  simp only [Thumbnail.main, Exec.bind_run]
  rcases resolveImageURI host Thumbnail.processor path world with ⟨_ | _ | _, final⟩ <;> simp

/-- An address that a call gives is that of the picture that the path asks for. -/
theorem resolveImageURI_uri {host : Host} {path uri : Bytes} {world after : World}
    (resolved : resolveImageURI host Thumbnail.processor path world = (.ok (some uri), after)) :
    ∃ request : SizedRequest, request.Of path ∧ uri = bytes "/thumbnail/" ++ request.requestImageName ∧
      Thumbnail.processor.extractThumbInfo world.files path = some (request.info Thumbnail.processor world.files) := by
  cases accepted : Thumbnail.processor.extractThumbInfo world.files path with
  | none =>
    rw [resolveImageURI_refused accepted] at resolved
    cases resolved
  | some info =>
    obtain ⟨request, of, rfl⟩ := extractThumbInfo_some accepted
    refine ⟨request, of, ?_, rfl⟩
    rcases resolveImageURI_accepted accepted with ⟨-, middle, -, run⟩ | ⟨-, raised, later, run, -⟩
    · rw [run, generateAndAnswer_result] at resolved
      split at resolved
      · cases resolved
        rfl
      · split at resolved <;> cases resolved
        rfl
    · rw [run] at resolved
      cases resolved

/-- What the script leads to is the picture that the path asks for. -/
theorem generate_answered (mounts : Mounts mounted) {host : Host} {path : Bytes} {world : World} {file : File}
    (answered : (generate mounted host path world).1 = some file) :
    ∃ request : SizedRequest, request.Of path ∧
      (generate mounted host path world).2.files (request.targetImageName Thumbnail.processor) = some file ∧
      Thumbnail.processor.extractThumbInfo world.files path = some (request.info Thumbnail.processor world.files) := by
  unfold generate at answered ⊢
  split at answered
  next uri after run =>
    obtain ⟨request, of, rfl, accepted⟩ := resolveImageURI_uri (main_setUri.mp run)
    rw [sent_thumbnail, mounts.thumbnails] at answered
    exact ⟨request, of, answered, accepted⟩
  next => cases answered

/-- A picture that is there is the answer, whatever the outside does. -/
theorem generate_present (mounts : Mounts mounted) (host : Host) {path : Bytes} {world : World} {request : SizedRequest} {file : File}
    (accepted : Thumbnail.processor.extractThumbInfo world.files path = some (request.info Thumbnail.processor world.files))
    (present : world.files (request.targetImageName Thumbnail.processor) = some file) :
    (generate mounted host path world).1 = some file := by
  have announces : Announces host Thumbnail.processor path := fun asked => absurd asked Bool.false_ne_true
  have there : (request.info Thumbnail.processor world.files).targetFileExists = true := by
    simp [SizedRequest.info, isFileExists, present]
  rcases resolveImageURI_accepted accepted with ⟨-, middle, same, run⟩ | ⟨silent, -⟩
  · rw [generateAndAnswer_result, if_pos there] at run
    rw [generate, main_setUri.mpr run]
    change middle.files (mounted (sent (bytes "/thumbnail/" ++ request.requestImageName))) = some file
    rw [sent_thumbnail, mounts.thumbnails, same]
    exact present
  · exact absurd announces silent

theorem under_root (request : SizedRequest) (script : Script) :
    script.processor.thumbnailImagesRoot <+: request.targetImageName script.processor := List.prefix_append _ _

theorem serve_missing {world : World} {request : Request} (upload : isUpload request.uri = true)
    (missing : uploaded mounted world.files request.uri = none) :
    serve mounted world request = generate mounted request.host (reqPath request.uri) world := by
  simp [serve, upload, missing]

/-- An upload is sent as it is, if the rule takes its address. -/
theorem serve_found (mounts : Mounts mounted) {world : World} {request : Request} (upload : isUpload request.uri = true) {file : File}
    (found : uploaded mounted world.files request.uri = some file) :
    serve mounted world request = (if (rewriteRegex.search request.uri).isSome then some file else none, world) := by
  simp only [serve, upload, found, Option.isSome_some, if_true]
  split
  next rewritten =>
    obtain ⟨path, shape⟩ := reqPath_rewritten rewritten
    rw [uploaded, shape] at found
    rw [shape, sent_inner, mounts.uploads, found]
  next => rfl

/-- A picture of a permitted size that was made of the source of this path, for a request with the same
name for its thumbnail, and what is drawn over it. -/
def Own (files : Files) (path : Bytes) (file : File) : Prop :=
  ∃ (asked made : SizedRequest) (image : Image), asked.Of path ∧
    made.targetImageName Thumbnail.processor = asked.targetImageName Thumbnail.processor ∧ file = .thumbnail image ∧
    image.path = asked.sourceImageName Thumbnail.processor ∧ isFileExists files image.path = true ∧
    sizeStr (ImageProcessor.sizeNumber made.sizeStr1) (ImageProcessor.sizeNumber made.sizeStr2) ∈ Thumbnail.permitedSizes ∧
    Script.Marked .thumbnail made image.marks

theorem extractThumbInfo_nil (files : Files) : Thumbnail.processor.extractThumbInfo files [] = none := by
  have missed : Lua.find [] ImageProcessor.thumbPattern 1 = none := by decide +kernel
  simp [ImageProcessor.extractThumbInfo, missed]

/-- No upload appears where a path was accepted. -/
theorem missing_lasts (mounts : Mounts mounted) {before after : Files} (grown : Grown Script.Shown before after) {uri later : Bytes}
    (same : later = uri) {info : ThumbInfo} (accepted : Thumbnail.processor.extractThumbInfo before (reqPath uri) = some info)
    (missing : uploaded mounted before uri = none) : uploaded mounted after later = none := by
  subst same
  rcases reqPath_shape later with empty | ⟨path, shape⟩
  · rw [empty, extractThumbInfo_nil] at accepted
    cases accepted
  · cases found : uploaded mounted after later with
    | none => rfl
    | some file =>
      rcases grown.entries _ file found with first | ⟨-, script, made, image, target, -⟩
      · exact first.symm.trans missing
      · rw [shape] at target
        exact absurd (target ▸ under_root made script) (mounts.separate script path)

/-- The folders of nginx are links to those of the script. -/
def linked (path : Bytes) : Bytes :=
  if (image_root ++ bytes "thumbnail/").isPrefixOf path then
    bytes "/www/target/images/thumbnail/" ++ path.drop (image_root ++ bytes "thumbnail/").length
  else bytes "/www/target/images/public/" ++ removePathSimbolAtHead (path.drop image_root.length)

theorem upload_folder : bytes "/www/target/images/public/upload/" = bytes "/www/target/images/public/" ++ bytes "upload/" := by
  decide +kernel

theorem linked_upload (path : Bytes) :
    linked (image_root ++ (bytes "/upload/" ++ path)) = bytes "/www/target/images/public/upload/" ++ path := by
  have other : (image_root ++ bytes "thumbnail/").isPrefixOf (image_root ++ (bytes "/upload/" ++ path)) = false := rfl
  have shape : bytes "/upload/" ++ path = slash :: (bytes "upload/" ++ path) := rfl
  rw [linked, if_neg (Bool.eq_false_iff.mp other), List.drop_left, shape, removePathSimbolAtHead_slash, upload_folder,
    List.append_assoc]

theorem linked_mounts : Mounts linked where
  uploads := by
    intro path
    have other : (image_root ++ bytes "thumbnail/").isPrefixOf (image_root ++ (bytes "upload/" ++ path)) = false := rfl
    have unslashed : (bytes "upload/" ++ path).head? ≠ some slash := by simp [bytes, slash]
    rw [linked_upload, linked, if_neg (Bool.eq_false_iff.mp other), List.drop_left, removePathSimbolAtHead_other unslashed,
      upload_folder, List.append_assoc]
  thumbnails := by
    intro path
    have begins : (image_root ++ bytes "thumbnail/").isPrefixOf (image_root ++ bytes "thumbnail/" ++ path) = true :=
      List.isPrefixOf_iff_prefix.mpr (List.prefix_append _ _)
    have root : bytes "/www/target/images/thumbnail/" = Thumbnail.processor.thumbnailImagesRoot := by decide +kernel
    rw [linked, if_pos begins, List.drop_left, root]
  separate := by
    intro script path under
    have apart : ∀ script : Script, ¬ (script.processor.thumbnailImagesRoot <+: bytes "/www/target/images/public/upload/") ∧
        ¬ (bytes "/www/target/images/public/upload/" <+: script.processor.thumbnailImagesRoot) := by
      intro script
      cases script <;> decide +kernel
    rw [linked_upload] at under
    exact not_under_both (apart script) under (List.prefix_append _ _)

def pictureRequest : Request := ⟨bytes "/upload/a.60x60.jpg", .removing 1000 800⟩

def album : World := uploads [bytes "/www/target/images/public/upload/a.jpg"]

theorem careful_picture (world : World) : Careful linked world pictureRequest := by
  intro _ _
  have path : reqPath pictureRequest.uri = bytes "/upload/a.60x60.jpg" := by decide +kernel
  have line : (Thumbnail.processor.extractThumbInfo (fun _ => none) (bytes "/upload/a.60x60.jpg")).map mkdirLine =
      some (bytes "mkdir -p " ++ bytes "/www/target/images/thumbnail/upload/") := by decide +kernel
  have makes : MakesFolders (bytes "mkdir -p " ++ bytes "/www/target/images/thumbnail/upload/") :=
    Or.inl ⟨[Shell.literal (bytes "/www/target/images/thumbnail/upload/")], by decide +kernel⟩
  rw [path]
  exact ⟨inert_of_line line makes _ world, fun _ _ => rfl⟩

end ImageServer.UploadFront
