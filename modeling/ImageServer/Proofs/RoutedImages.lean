import ImageServer.Proofs.OlderAgreement
import ImageServer.Proofs.OlderStore
import ImageServer.RoutedImages

/-! The thumbnail server is asked for a picture until there is one, and then never again: what it stores
is what the router finds, and what is there stays there. -/

namespace ImageServer

namespace ThumbnailServer

/-- GraphicsMagick reads the source, makes the picture and writes it. -/
def Obliges (self : ImageProcessor) (host : Host) (info : ThumbInfo) : Prop :=
  ∃ picture image, Image.new host.magick (some info.sourceImageName) = .ok picture ∧
    thumbnail4LargeImgs host.magick picture info.width info.height self.widthLimit self.heightLimit = .ok image ∧
    host.magick.writeImage info.targetImageName = true

theorem resizeImage_present {self : ImageProcessor} {host : Host} {info : ThumbInfo} {world : World}
    (source : isFileExists world.files info.sourceImageName = true)
    (permitted : sizeStr info.width info.height ∈ self.permitedSizes) (obliges : Obliges self host info) :
    isFileExists (resizeImage host self info world).2.files info.targetImageName = true := by
  obtain ⟨picture, image, loaded, resized, wrote⟩ := obliges
  simp only [resizeImage, Exec.bind_run, Exec.get_run, source, Bool.not_true, Bool.false_eq_true, if_false, Exec.lift_run,
    loaded, if_pos permitted, resized, Image.save, wrote, if_true, Exec.modify_run, Exec.pure_run]
  have finished (middle : World) := @finish_within host (fun before after => after.files = before.files) (fun _ => rfl)
    (fun first second => Eq.trans second first) (fun message serverUrl world => (sendMessage_keeps host message serverUrl world).1)
    self info true middle
  rw [isFileExists, finished]
  simp

/-- A call for a thumbnail that can be made leaves it there. -/
theorem resolveImageURI_present {self : ImageProcessor} {host : Host} {path : Bytes} {world : World} {info : ThumbInfo}
    (accepted : self.extractThumbInfo world.files path = some info) (inert : Inert self world (host, path))
    (source : isFileExists world.files info.sourceImageName = true)
    (permitted : sizeStr info.width info.height ∈ self.permitedSizes) (obliges : Obliges self host info) :
    isFileExists (resolveImageURI host self path world).2.files info.targetImageName = true := by
  obtain ⟨told, ⟨files, -⟩, run⟩ := @resolveImageURI_told host _ _ _ _ accepted
  rw [run]
  cases absent : info.targetFileExists with
  | true =>
    rw [generateAndAnswer_present absent, files]
    obtain ⟨request, rfl⟩ := extractThumbInfo_some accepted
    exact absent
  | false =>
    have kept : (mkdirs host info.targetFolder told).2.files = world.files :=
      (host.mkdir_keeps (mkdirLine info) told.files (inert info accepted absent)).trans files
    rw [generateAndAnswer_absent absent]
    exact resizeImage_present (kept ▸ source) permitted obliges

end ThumbnailServer

namespace RoutedImages
open ImageLocator ThumbnailServer WriteOnce Runs

/-- If the thumbnail server is asked, its command line makes directories. -/
def Inert (mounted : Bytes → Bytes) (self : ThumbnailServer.ImageProcessor) (world : World) (request : Request) : Prop :=
  ∀ path, handed (seen mounted world.files) request = some path → ThumbnailServer.Inert self world (request.host, path)

theorem serve_adds {mounted : Bytes → Bytes} {self : ThumbnailServer.ImageProcessor} {world : World} {request : Request}
    (inert : Inert mounted self world request) :
    Adds (Thumbnailed self) world.files (serve mounted self world request).files := by
  cases asked : handed (seen mounted world.files) request with
  | none => exact .nothing (by simp only [serve, asked])
  | some path =>
    have adds := ThumbnailServer.serve_adds (inert path asked)
    simp only [serve, asked]
    exact adds

/-- The request comes to the location for the gilt store, and what is handed over comes to the one for it. -/
structure Arrives (request : Request) (name : SizedName) : Prop where
  untaken : taken request.uri = false
  giltstore : bytes "/cms/giltstore/" <+: request.uri
  sized : name.Of request.uri

variable {request : Request} {name : SizedName} {files : Files}

theorem address_arrives (arrives : Arrives request name) : address files request = some (
    if isFileExists files (originalFile name.path) then INNER_IMAGE_LOCATION ++ name.path
    else if isFileExists files (thumbnailFile name.path) then INNER_THUMBNAIL_LOCATION ++ name.path
    else THUMNAIL_LOCATION ++ name.path) := by
  obtain ⟨path, supported⟩ := giltstore_sized arrives.sized request.hostName
  have on : bytes "1" ≠ bytes "0" := by decide
  have begins : (bytes "/cms/giltstore/").isPrefixOf request.uri = true := List.isPrefixOf_iff_prefix.mpr arrives.giltstore
  rw [lookedUp] at path
  simp only [address, arrives.untaken, begins, Bool.not_true, Bool.or_self, Bool.false_eq_true, if_false, locate, getURI,
    path, supported, if_neg on, if_neg name.path_ne_nil]
  split
  · rfl
  · split <;> rfl

theorem handed_arrives (arrives : Arrives request name) : handed files request =
    if isFileExists files (originalFile name.path) || isFileExists files (thumbnailFile name.path) ||
      taken (THUMNAIL_LOCATION ++ name.path) then none else some (slash :: name.path) := by
  have inner : ∀ location ∈ [INNER_IMAGE_LOCATION, INNER_THUMBNAIL_LOCATION], ∀ path,
      THUMNAIL_LOCATION.isPrefixOf (location ++ path) = false := by
    simp only [List.mem_cons, List.not_mem_nil, or_false, forall_eq_or_imp, forall_eq]
    exact ⟨fun _ => rfl, fun _ => rfl⟩
  have begins : THUMNAIL_LOCATION.isPrefixOf (THUMNAIL_LOCATION ++ name.path) = true :=
    List.isPrefixOf_iff_prefix.mpr (List.prefix_append _ _)
  simp only [handed, address_arrives arrives]
  cases isFileExists files (originalFile name.path) with
  | true => simp only [if_true, inner INNER_IMAGE_LOCATION (by simp), Bool.and_false, Bool.false_eq_true, if_false, Bool.true_or]
  | false =>
    cases isFileExists files (thumbnailFile name.path) with
    | true =>
      simp only [Bool.false_eq_true, if_false, if_true, inner INNER_THUMBNAIL_LOCATION (by simp), Bool.and_false, Bool.or_true,
        Bool.true_or]
    | false =>
      simp only [Bool.false_eq_true, if_false, begins, Bool.and_true, Bool.or_self, Bool.false_or,
        outerThumbnail_handed name.path_ne_nil name.path_line]
      cases taken (THUMNAIL_LOCATION ++ name.path) <;> rfl

theorem exists_later {before after : Files} (extends' : Extends before after) {path : Bytes}
    (there : isFileExists before path = true) : isFileExists after path = true := by
  obtain ⟨file, found⟩ := Option.isSome_iff_exists.mp there
  exact Option.isSome_iff_exists.mpr ⟨file, extends' path file found⟩

theorem aliased_outer (path : Bytes) : aliased (THUMNAIL_LOCATION ++ path) = none := by
  unfold aliased
  split
  · rfl
  · rfl

theorem aliased_image {path : Bytes} (straight : taken (INNER_IMAGE_LOCATION ++ path) = false) :
    aliased (INNER_IMAGE_LOCATION ++ path) = some (originalFile path) := by
  have begins : INNER_IMAGE_LOCATION.isPrefixOf (INNER_IMAGE_LOCATION ++ path) = true :=
    List.isPrefixOf_iff_prefix.mpr (List.prefix_append _ _)
  have root : bytes "/www/target/docdir/images/" = appendPathSimbol2Tail ORIGINAL_IMAGE_ROOT := by decide +kernel
  rw [aliased, straight, if_neg Bool.false_ne_true, if_pos begins, List.drop_left, root, originalFile]

theorem aliased_thumbnail {path : Bytes} (straight : taken (INNER_THUMBNAIL_LOCATION ++ path) = false) :
    aliased (INNER_THUMBNAIL_LOCATION ++ path) = some (thumbnailFile path) := by
  have other : INNER_IMAGE_LOCATION.isPrefixOf (INNER_THUMBNAIL_LOCATION ++ path) = false := rfl
  have begins : INNER_THUMBNAIL_LOCATION.isPrefixOf (INNER_THUMBNAIL_LOCATION ++ path) = true :=
    List.isPrefixOf_iff_prefix.mpr (List.prefix_append _ _)
  have root : bytes "/www/target/docdir/images/thumbnail/" = appendPathSimbol2Tail THUMBNAIL_IMAEG_ROOT := by decide +kernel
  rw [aliased, straight, if_neg Bool.false_ne_true, if_neg (Bool.eq_false_iff.mp other), if_pos begins, List.drop_left, root,
    thumbnailFile]

/-- What the router looks for is always in the folder of the gilt store. -/
theorem lookedUp_giltstore (uri host : Bytes) :
    lookedUp uri host = [] ∨ ∃ path, lookedUp uri host = bytes "cms/giltstore/" ++ path := by
  have inside : (giltstore uri host).reqPath = [] ∨ ∃ path, (giltstore uri host).reqPath = bytes "/cms/giltstore/" ++ path := by
    have one : bytes "1" ≠ bytes "0" := by decide
    cases image : imageRegex.search uri <;> cases sized : sizedRegex.search uri <;>
      cases zoshow : ((Regex.literal (bytes "zoshow.com")).search host).isSome <;>
      simp [giltstore, image, sized, zoshow, one]
  rcases inside with none | ⟨path, inside⟩
  · rw [lookedUp, none]
    exact Or.inl rfl
  · rw [lookedUp, inside]
    exact Or.inr ⟨path, removePathSimbolAtHead_slash _⟩

/-- Nothing that the server makes is an original of the gilt store. -/
def Separate (mounted : Bytes → Bytes) (self : ThumbnailServer.ImageProcessor) : Prop :=
  ∀ path, ¬ self.thumbnailImagesRoot <+: mounted (originalFile (bytes "cms/giltstore/" ++ path))

/-- An address with a file behind it stays the address. -/
theorem address_lasts {self : ThumbnailServer.ImageProcessor} {mounted : Bytes → Bytes} (separate : Separate mounted self)
    {before after : Files} (grown : Grown (Thumbnailed self) before after) {address' path : Bytes}
    (addressed : address (seen mounted before) request = some address') (behind : aliased address' = some path) :
    address (seen mounted after) request = some address' := by
  unfold address at addressed ⊢
  split at addressed
  · cases addressed
  next here =>
    rw [if_neg here]
    simp only [locate, getURI] at addressed ⊢
    split at addressed
    next unsupported => rwa [if_pos unsupported]
    next supported =>
      rw [if_neg supported]
      split at addressed
      · cases addressed
      next filled =>
        rw [if_neg filled]
        have there (looked : Bytes) (found : isFileExists (seen mounted before) looked = true) :
            isFileExists (seen mounted after) looked = true := exists_later grown.extends_start found
        split at addressed
        next original => rwa [if_pos (there _ original)]
        next noOriginal =>
          split at addressed
          next thumbnail =>
            rw [if_neg ?_, if_pos (there _ thumbnail)]
            · exact addressed
            · intro original
              obtain ⟨file, found⟩ := Option.isSome_iff_exists.mp original
              rcases grown.entries _ file found with first | ⟨-, made, image, target, -⟩
              · exact noOriginal (Option.isSome_iff_exists.mpr ⟨file, first⟩)
              · rcases lookedUp_giltstore request.uri request.hostName with none | ⟨path, looked⟩
                · exact filled none
                · rw [lookedUp] at looked
                  rw [looked] at target
                  exact separate path (target ▸ List.prefix_append _ _)
          next =>
            obtain rfl := Option.some.inj addressed
            rw [aliased_outer] at behind
            cases behind

theorem serve_grown {self : ThumbnailServer.ImageProcessor} {mounted : Bytes → Bytes} {world : World} {requests : List Request}
    (inert : Along (serve mounted self) (Inert mounted self) world requests) :
    Grown (Thumbnailed self) world.files (run (serve mounted self) world requests).files :=
  @run_grown _ _ _ _ _ (Thumbnailed self) (serve mounted self) World.files _ (thumbnailed_lasting self)
    (fun _ _ inert => serve_adds inert) world requests inert

theorem answer_lasts {self : ThumbnailServer.ImageProcessor} {mounted : Bytes → Bytes} (separate : Separate mounted self)
    {before after : Files} (grown : Grown (Thumbnailed self) before after) {file : File}
    (answered : answer mounted before request = some file) : answer mounted after request = some file := by
  obtain ⟨address', addressed, rest⟩ := Option.bind_eq_some_iff.mp answered
  obtain ⟨path, behind, found⟩ := Option.bind_eq_some_iff.mp rest
  have again := address_lasts separate grown addressed behind
  simp only [answer, again, Option.bind_some, behind]
  exact grown.extends_start _ _ found

/-- No address of the name is taken from the internal locations. -/
def Straight (name : SizedName) : Prop :=
  ∀ location ∈ [INNER_IMAGE_LOCATION, INNER_THUMBNAIL_LOCATION, THUMNAIL_LOCATION], taken (location ++ name.path) = false

/-- The answer to a request for a name whose original or thumbnail is there. -/
theorem answer_arrives (arrives : Arrives request name) (straight : Straight name) (mounted : Bytes → Bytes) :
    answer mounted files request = (seen mounted files (originalFile name.path)).or (seen mounted files (thumbnailFile name.path)) := by
  rw [answer, address_arrives arrives, Option.bind_some]
  cases original : seen mounted files (originalFile name.path) with
  | some file =>
    rw [if_pos (by simp [isFileExists, original]), aliased_image (straight _ (by simp)), Option.bind_some, original]
    rfl
  | none =>
    rw [if_neg (by simp [isFileExists, original])]
    cases thumbnail : seen mounted files (thumbnailFile name.path) with
    | some file =>
      rw [if_pos (by simp [isFileExists, thumbnail]), aliased_thumbnail (straight _ (by simp)), Option.bind_some, thumbnail]
      rfl
    | none =>
      rw [if_neg (by simp [isFileExists, thumbnail]), aliased_outer]
      rfl

/-- The folder of the router is the public folder of the server. -/
def mounted (path : Bytes) : Bytes := bytes "/www/images/public/" ++ path.drop ORIGINAL_IMAGE_ROOT.length

def plainRequest : Request :=
  ⟨bytes "/cms/giltstore/a_60_60.jpg", bytes "1.xiustatic.com", .removing 1000 800⟩

def plainName : SizedName where
  base := bytes "a"
  width := bytes "60"
  height := bytes "60"
  extension := bytes ".jpg"
  line := by decide +kernel
  digits := by decide +kernel
  size := ⟨by decide, by decide +kernel⟩
  known := ⟨bytes ".jpg", by simp, by simp [bytes, Regex.caseless_self]⟩

theorem plain_arrives : Arrives plainRequest plainName where
  untaken := by decide +kernel
  giltstore := by decide +kernel
  sized := by
    have read : (sizedRegex.search plainRequest.uri).map (fun groups => (groups 1, groups 2, groups 3)) =
        some (plainName.base, plainName.sizes, plainName.extension) := by decide +kernel
    obtain ⟨groups, hit, captured⟩ := Option.map_eq_some_iff.mp read
    simp only [Prod.mk.injEq] at captured
    exact ⟨groups, hit, captured.1, captured.2.1, captured.2.2⟩

theorem plain_understood : Understood plainName where
  jpg := rfl
  clear := ThumbnailServer.clear_of_no_underscore (by decide +kernel)

theorem separate_plain : Separate mounted ThumbnailServer.processor := by
  intro path under
  have root : appendPathSimbol2Tail ORIGINAL_IMAGE_ROOT = ORIGINAL_IMAGE_ROOT := by decide +kernel
  rw [mounted, originalFile, root, List.drop_left, ← List.append_assoc] at under
  have short := List.prefix_of_prefix_length_le under (List.prefix_append _ path) (by decide +kernel)
  exact absurd short (by decide +kernel)

theorem straight_plain : Straight plainName := by
  unfold Straight
  decide +kernel

theorem inert_plain (world : World) : Inert mounted ThumbnailServer.processor world plainRequest := by
  intro path asked
  rw [handed_arrives plain_arrives] at asked
  split at asked
  · cases asked
  · obtain rfl := Option.some.inj asked
    refine @inert_of_folder _ _ (bytes "/www/images/public/thumbnail/cms/giltstore/") _ world (by decide +kernel) (Or.inl ?_)
    exact ⟨[Shell.literal (bytes "/www/images/public/thumbnail/cms/giltstore/")], by decide +kernel⟩

end RoutedImages
end ImageServer
