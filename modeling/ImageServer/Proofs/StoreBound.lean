import ImageServer.Proofs.Answers
import ImageServer.Proofs.ThumbnailStore
import Mathlib.Data.Set.Card

/-! How many thumbnails one image gets. The numbers of a size are looked up among the permitted
sizes, but a thumbnail is named after the texts that the numbers were read from, so there are as
many thumbnails of a size as there are spellings of it that were asked for. -/

namespace ImageServer

/-- Things with labels, no two of them with the same, are at most as many as the labels. -/
theorem encard_le_of_labels {α β : Type} [DecidableEq β] {things : Set α} {labels : List β} (label : α → β → Prop)
    (labelled : ∀ thing ∈ things, ∃ mark ∈ labels, label thing mark)
    (apart : ∀ first ∈ things, ∀ second ∈ things, ∀ mark, label first mark → label second mark → first = second) :
    things.encard ≤ labels.length := by
  choose mark listed marked using labelled
  have injective : Function.Injective fun thing : things =>
      (⟨mark thing thing.2, List.mem_toFinset.mpr (listed thing thing.2)⟩ : (labels.toFinset : Set β)) := by
    intro first second same
    have equal : mark first first.2 = mark second second.2 := congrArg Subtype.val same
    apply Subtype.ext
    exact apart first first.2 second second.2 _ (marked first first.2) (equal ▸ marked second second.2)
  calc things.encard ≤ (labels.toFinset : Set β).encard := ENat.card_le_card_of_injective injective
    _ = labels.toFinset.card := Set.encard_coe_eq_coe_finsetCard _
    _ ≤ labels.length := by exact_mod_cast List.toFinset_card_le labels

/-- A world with the thumbnails that were made in it. -/
structure Ledger where
  world : World
  made : List ThumbInfo

/-- The thumbnail that a call makes: its target is there afterwards and was not before. -/
def makes (self : ImageProcessor) (world : World) (call : Call) : Option ThumbInfo :=
  (self.extractThumbInfo world.files call.path).filter fun info =>
    !isFileExists world.files info.targetImageName && isFileExists (serve self world call).files info.targetImageName

def record (self : ImageProcessor) (ledger : Ledger) (call : Call) : Ledger :=
  ⟨serve self ledger.world call, ledger.made ++ (makes self ledger.world call).toList⟩

/-- The call makes no second thumbnail of a size of an image. -/
def Unrepeated (self : ImageProcessor) (ledger : Ledger) (call : Call) : Prop :=
  ∀ info, self.extractThumbInfo ledger.world.files call.path = some info → info.targetFileExists = false →
    Saves call.host self ledger.world.files info →
    ∀ earlier ∈ ledger.made, earlier.sourceImageName = info.sourceImageName →
      sizeStr earlier.width earlier.height ≠ sizeStr info.width info.height

/-- The thumbnails of an image that are there now and were not at the start. -/
def renderedFrom (start after : World) (source : Bytes) : Set Bytes :=
  { path | start.files path = none ∧ ∃ image : Image, after.files path = some (.thumbnail image) ∧ image.path = source }

structure Accounted (processor : ImageProcessor) (start : World) (ledger : Ledger) : Prop where
  listed : ∀ path image, start.files path = none → ledger.world.files path = some (.thumbnail image) →
    ∃ info ∈ ledger.made, info.targetImageName = path ∧ info.sourceImageName = image.path
  permitted : ∀ info ∈ ledger.made, sizeStr info.width info.height ∈ processor.permitedSizes
  single : ∀ first ∈ ledger.made, ∀ second ∈ ledger.made, first.sourceImageName = second.sourceImageName →
    sizeStr first.width first.height = sizeStr second.width second.height →
    first.targetImageName = second.targetImageName

theorem serve_saves {self : ImageProcessor} {world : World} {call : Call} (inert : Inert self world call) :
    (serve self world call).files = world.files ∨
      ∃ (info : ThumbInfo) (image : Image), self.extractThumbInfo world.files call.path = some info ∧
        info.targetFileExists = false ∧ world.files info.targetImageName = none ∧
        Saves call.host self world.files info ∧ image.path = info.sourceImageName ∧
        (serve self world call).files = Function.update world.files info.targetImageName (some (.thumbnail image)) := by
  rcases serve_files inert with same | ⟨info, image, accepted, absent, -, source, saved⟩
  · exact Or.inl same
  by_cases saves : Saves call.host self world.files info
  · refine Or.inr ⟨info, image, accepted, ?_, absent, saves, source, saved⟩
    rw [extractThumbInfo_present accepted, isFileExists, absent]
    rfl
  · refine Or.inl ?_
    have unsaved : ∀ other, self.extractThumbInfo world.files call.path = some other → other.targetFileExists = false →
        ¬ Saves call.host self world.files other := by
      intro other again _
      cases accepted.symm.trans again
      exact saves
    rcases @resolveImageURI_unsaved call.host self call.path world unsaved with same | ⟨other, again, missing, generates, moved⟩
    · exact same
    · exact moved.trans (call.host.mkdir_keeps _ world.files (inert other again missing generates))

theorem makes_none {self : ImageProcessor} {world : World} {call : Call}
    (same : (serve self world call).files = world.files) : makes self world call = none := by
  unfold makes
  rw [same]
  cases self.extractThumbInfo world.files call.path <;> simp

theorem accounted_step {self : ImageProcessor} {start : World} {ledger : Ledger} {call : Call}
    (accounted : Accounted self start ledger) (inert : Inert self ledger.world call)
    (unrepeated : Unrepeated self ledger call) : Accounted self start (record self ledger call) := by
  rcases serve_saves inert with same | ⟨info, image, accepted, missing, absent, saves, source, saved⟩
  · have unchanged : record self ledger call = ⟨serve self ledger.world call, ledger.made⟩ := by
      simp [record, makes_none same]
    rw [unchanged]
    exact { accounted with listed := by simpa only [same] using accounted.listed }
  have made : record self ledger call = ⟨serve self ledger.world call, ledger.made ++ [info]⟩ := by
    simp [record, makes, accepted, isFileExists, absent, saved]
  have fresh := unrepeated info accepted missing saves
  rw [made]
  refine ⟨?_, ?_, ?_⟩
  · intro path other unborn found
    simp only [saved] at found
    by_cases here : path = info.targetImageName
    · subst path
      rw [Function.update_self] at found
      cases found
      exact ⟨info, by simp, rfl, source.symm⟩
    · rw [Function.update_of_ne here] at found
      obtain ⟨earlier, member, facts⟩ := accounted.listed path other unborn found
      exact ⟨earlier, by simp [member], facts⟩
  · intro other member
    rcases List.mem_append.mp member with earlier | last
    · exact accounted.permitted other earlier
    · obtain rfl := List.mem_singleton.mp last
      exact saves.permitted
  · intro first memberFirst second memberSecond sameSource sameSize
    rcases List.mem_append.mp memberFirst with earlier | last
    · rcases List.mem_append.mp memberSecond with earlier' | last'
      · exact accounted.single first earlier second earlier' sameSource sameSize
      · obtain rfl := List.mem_singleton.mp last'
        exact absurd sameSize (fresh first earlier sameSource)
    · obtain rfl := List.mem_singleton.mp last
      rcases List.mem_append.mp memberSecond with earlier' | last'
      · exact absurd sameSize.symm (fresh second earlier' sameSource.symm)
      · obtain rfl := List.mem_singleton.mp last'
        rfl

/-- What a call may do if every size is to have one thumbnail: its command line only makes directories, and
it makes no second thumbnail of a size of an image. -/
def MakesOne (self : ImageProcessor) (ledger : Ledger) (call : Call) : Prop :=
  Inert self ledger.world call ∧ Unrepeated self ledger call

end ImageServer
