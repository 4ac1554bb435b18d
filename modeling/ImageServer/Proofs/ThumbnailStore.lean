import ImageServer.Proofs.Generation
import ImageServer.Proofs.ThumbInfo
import ImageServer.Runs

/-! The thumbnail store over whole runs of calls. A thumbnail is made once, from the one
source that its name determines, and no other file changes, as long as the command line of
every call only makes directories. -/

namespace ImageServer

/-- A request, with what the outside does while it is served. -/
structure Call where
  host : Host
  path : Bytes

def serve (self : ImageProcessor) (world : World) (call : Call) : World :=
  (resolveImageURI call.host self call.path world).2

/-- If the call comes to the command line, the line makes directories. -/
def Inert (self : ImageProcessor) (world : World) (call : Call) : Prop :=
  ∀ info, self.extractThumbInfo world.files call.path = some info → info.targetFileExists = false →
    Generates call.host self world.files info → MakesFolders (mkdirLine info)

/-- What a call leaves of the store, and what it finds there. -/
structure KeepsStore (processor : ImageProcessor) (world : World) (call : Call) : Prop where
  originals : ∀ path, processor.originalImagesRoot <+: path → (serve processor world call).files path = world.files path
  created : ∀ path, world.files path = none → (serve processor world call).files path ≠ none →
    ∃ info, processor.extractThumbInfo world.files call.path = some info ∧ path = info.targetImageName ∧
      sizeStr info.width info.height ∈ processor.permitedSizes ∧ isFileExists world.files info.sourceImageName = true
  kept : ∀ path file, world.files path = some file → (serve processor world call).files path = some file
  answered : ∀ info, processor.extractThumbInfo world.files call.path = some info → info.targetFileExists = true →
    ∃ image : Image, image.path = info.sourceImageName ∧
      world.files info.targetImageName = some (.thumbnail image)

/-- Every file that is at the place of a thumbnail was made from that thumbnail's source. -/
def Rendered (self : ImageProcessor) (world : World) : Prop :=
  ∀ (request : SizedRequest) (file : File), world.files (request.targetImageName self) = some file →
    ∃ image : Image, image.path = request.sourceImageName self ∧ file = .thumbnail image

theorem serve_files {self : ImageProcessor} {world : World} {call : Call} (inert : Inert self world call) :
    (serve self world call).files = world.files ∨
      ∃ (info : ThumbInfo) (image : Image), self.extractThumbInfo world.files call.path = some info ∧
        world.files info.targetImageName = none ∧ Generates call.host self world.files info ∧
        image.path = info.sourceImageName ∧
        (serve self world call).files = Function.update world.files info.targetImageName (some (.thumbnail image)) := by
  rcases resolveImageURI_cases call.host self call.path world with untouched | ⟨info, accepted, absent, generates, made⟩
  · exact Or.inl untouched.files
  have shell := call.host.mkdir_keeps _ world.files (inert info accepted absent generates)
  rcases made.files with same | ⟨image, source, saved⟩
  · exact Or.inl (same.trans shell)
  · obtain ⟨request, -, rfl⟩ := extractThumbInfo_some accepted
    refine Or.inr ⟨_, image, accepted, ?_, generates, source, ?_⟩
    · simpa [SizedRequest.info, isFileExists] using absent
    · rw [← shell]
      exact saved

theorem rendered_step {self : ImageProcessor} {world : World} {call : Call} (rendered : Rendered self world)
    (inert : Inert self world call) : Rendered self (serve self world call) := by
  intro request file found
  rcases serve_files inert with same | ⟨info, image, accepted, -, -, source, saved⟩
  · rw [same] at found
    exact rendered request file found
  rw [saved] at found
  obtain ⟨made, -, rfl⟩ := extractThumbInfo_some accepted
  by_cases here : request.targetImageName self = made.targetImageName self
  · rw [here, SizedRequest.info, Function.update_self] at found
    exact ⟨image, source.trans (SizedRequest.source_of_target self here).symm, (Option.some.inj found).symm⟩
  · rw [SizedRequest.info, Function.update_of_ne here] at found
    exact rendered request file found

/-- Two folders of which neither begins the other have no path in common. -/
theorem not_under_both {first second path : Bytes} (apart : ¬ first <+: second ∧ ¬ second <+: first)
    (under : first <+: path) : ¬ second <+: path := by
  intro under'
  rcases List.prefix_or_prefix_of_prefix under under' with inside | inside
  · exact apart.1 inside
  · exact apart.2 inside

theorem keepsStore_step {self : ImageProcessor}
    (apart : ¬ self.originalImagesRoot <+: self.thumbnailImagesRoot ∧
      ¬ self.thumbnailImagesRoot <+: self.originalImagesRoot)
    {world : World} {call : Call} (rendered : Rendered self world) (inert : Inert self world call) :
    KeepsStore self world call where
  originals := by
    intro path under
    rcases serve_files inert with same | ⟨info, image, accepted, -, -, -, saved⟩
    · rw [same]
    · have elsewhere : path ≠ info.targetImageName := by
        rintro rfl
        exact not_under_both apart under (target_under_root accepted)
      rw [saved, Function.update_of_ne elsewhere]
  created := by
    intro path absent present
    rcases serve_files inert with same | ⟨info, image, accepted, -, generates, -, saved⟩
    · exact absurd (same ▸ absent) present
    · refine ⟨info, accepted, ?_, generates.permitted, generates.source⟩
      by_contra elsewhere
      rw [saved, Function.update_of_ne elsewhere] at present
      exact present absent
  kept := by
    intro path file found
    rcases serve_files inert with same | ⟨info, image, -, absent, -, -, saved⟩
    · rw [same, found]
    · have elsewhere : path ≠ info.targetImageName := by
        rintro rfl
        simp [absent] at found
      rw [saved, Function.update_of_ne elsewhere, found]
  answered := by
    intro info accepted present
    obtain ⟨request, -, rfl⟩ := extractThumbInfo_some accepted
    obtain ⟨file, found⟩ := Option.isSome_iff_exists.mp present
    obtain ⟨image, source, rfl⟩ := rendered request file found
    exact ⟨image, source, found⟩

/-- From an empty store, and along calls whose command lines only make directories, every
call keeps the store. -/
theorem thumbnail_store_sound (self : ImageProcessor)
    (apart : ¬ self.originalImagesRoot <+: self.thumbnailImagesRoot ∧
      ¬ self.thumbnailImagesRoot <+: self.originalImagesRoot)
    (start : World) (empty : ∀ path, self.thumbnailImagesRoot <+: path → start.files path = none)
    (calls : List Call) (inert : Runs.Along (serve self) (Inert self) start calls) :
    Runs.Along (serve self) (KeepsStore self) start calls := by
  have rendered : Rendered self start := by
    intro request file found
    have absent := empty (request.targetImageName self) (List.prefix_append _ _)
    rw [absent] at found
    cases found
  exact Runs.Along.of_invariant (fun _ _ kept inert => rendered_step kept inert)
    (fun _ _ kept inert => keepsStore_step apart kept inert) rendered inert

/-- Whatever has happened before, a path whose directory reads as one word is inert. -/
theorem inert_of_line {self : ImageProcessor} {path line : Bytes}
    (lineOf : (self.extractThumbInfo (fun _ => none) path).map mkdirLine = some line) (makes : MakesFolders line)
    (host : Host) (world : World) : Inert self world ⟨host, path⟩ := by
  intro info accepted _ _
  rw [extractThumbInfo_files accepted] at lineOf
  rw [show mkdirLine info = line from Option.some.inj lineOf]
  exact makes

/-- The second of two requests for one thumbnail is answered from the file of the first. -/
theorem thumbnail_store_sound_twice :
    let call : Call := ⟨.removing 1000 800, bytes "/p/a.100x100.jpg"⟩
    Runs.Along (serve Thumbnail.processor) (KeepsStore Thumbnail.processor)
      (uploads [bytes "/www/target/images/public/p/a.jpg"]) [call, call] := by
  intro call
  have line : (Thumbnail.processor.extractThumbInfo (fun _ => none) (bytes "/p/a.100x100.jpg")).map mkdirLine =
      some (bytes "mkdir -p /www/target/images/thumbnail/p/") := by decide +kernel
  have inert := inert_of_line line
    (Or.inl ⟨[Shell.literal (bytes "/www/target/images/thumbnail/p/")], by decide +kernel⟩) call.host
  exact thumbnail_store_sound Thumbnail.processor (by decide +kernel) _ (uploads_absent (by decide +kernel))
    [call, call] ⟨inert _, inert _, trivial⟩

/-- The directory of the request is a command that removes another image. -/
theorem injected_command_removes_original :
    let self := Thumbnail.processor
    let call : Call := ⟨.removing 1000 800, bytes "/;rm -f /www/target/images/public/x.jpg;/a.100x100.jpg"⟩
    let start := uploads [bytes "/www/target/images/public/;rm -f /www/target/images/public/x.jpg;/a.jpg",
      bytes "/www/target/images/public/x.jpg"]
    (¬ self.originalImagesRoot <+: self.thumbnailImagesRoot ∧ ¬ self.thumbnailImagesRoot <+: self.originalImagesRoot) ∧
      (∀ path, self.thumbnailImagesRoot <+: path → start.files path = none) ∧
      ¬ Runs.Along (serve self) (KeepsStore self) start [call] := by
  intro self call start
  refine ⟨by decide +kernel, uploads_absent (by decide +kernel), ?_⟩
  intro along
  have same := along.1.originals (bytes "/www/target/images/public/x.jpg") (by decide +kernel)
  revert same
  decide +kernel

end ImageServer
