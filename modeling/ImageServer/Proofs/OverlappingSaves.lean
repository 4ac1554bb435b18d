import ImageServer.Proofs.CacheKey
import ImageServer.Proofs.ThumbnailRace

/-! Saves that overlap. While a thumbnail is written anybody may look at it and begin to write it again, and
an answer may show a part of it. Where all workers have the same library, two saves of one target write the
same bytes, and so the file is whole as soon as nobody is writing it. -/

namespace ImageServer.Workers
open InPlace Runs

variable {W : Type} {machine : Machine} {self : ImageProcessor} {magick : Magick}

/-- All workers have one library, no save fails midway, and the command lines make directories. -/
def Orderly (magick : Magick) (state : State W) : Event W → Prop
  | .load _ library => library = magick
  | .makeFolder worker => ∀ info library image, state.phase worker = .loaded info library image →
      MakesFolders (mkdirLine info)
  | .fail worker => (state.phase worker).Inactive
  | _ => True

/-- What is drawn for a request of a permitted size, by the one library. -/
structure Draws (processor : ImageProcessor) (magick : Magick) (info : ThumbInfo) (image : Image) : Prop where
  accepted : Accepted processor info
  permitted : sizeStr info.width info.height ∈ processor.permitedSizes
  read : Image.new magick (some info.sourceImageName) = .ok image

/-- What a phase has from the one library. -/
def Phase.Owned (machine : Machine) (self : ImageProcessor) (magick : Magick) : Phase → Prop
  | .idle => True
  | .checked info => Accepted self info
  | .loaded info library image | .prepared info library image => library = magick ∧ Draws self magick info image
  | .saving info content _ => ∃ image picture, Draws self magick info image ∧ draw self magick image info = .ok picture ∧
      content = machine.encode picture

/-- No permitted size leaves the width out. -/
def Wide (self : ImageProcessor) : Prop := ∀ text ∈ self.permitedSizes, text.head? ≠ some 48

theorem sized_of_permitted (wide : Wide self) {text : Bytes} (size : IsSize text) {height : Option Number}
    (permitted : sizeStr (ImageProcessor.sizeNumber text) height ∈ self.permitedSizes) : (42 : UInt8) ∉ text := by
  intro star
  rw [(sizeNumber_none_iff size).mpr (Or.inr star)] at permitted
  exact wide _ permitted rfl

theorem draw_congr {info info' : ThumbInfo} (name : info.requestImageName = info'.requestImageName)
    (width : info.width = info'.width) (height : info.height = info'.height) (image : Image) :
    draw self magick image info = draw self magick image info' := by
  have selected : selectWaterMark self info = selectWaterMark self info' := by
    unfold selectWaterMark
    rw [name, width, height]
  unfold draw
  rw [selected, width, height]

/-- A target that is made in a permitted size settles everything that is drawn. -/
theorem drawn_of_target (wide : Wide self) {info info' : ThumbInfo} {image image' : Image} (draws : Draws self magick info image)
    (draws' : Draws self magick info' image') (target : info.targetImageName = info'.targetImageName) :
    draw self magick image info = draw self magick image' info' := by
  obtain ⟨⟨files, path, accepted⟩, permitted, read⟩ := draws
  obtain ⟨⟨files', path', accepted'⟩, permitted', read'⟩ := draws'
  obtain ⟨request, -, rfl⟩ := extractThumbInfo_some accepted
  obtain ⟨other, -, rfl⟩ := extractThumbInfo_some accepted'
  have name : request.requestImageName = other.requestImageName := List.append_cancel_left target
  obtain ⟨-, sizes, -⟩ := SizedRequest.requestImageName_inj name
  have plain := sized_of_permitted wide request.size1 permitted
  have plain' := sized_of_permitted wide other.size1 permitted'
  obtain ⟨first, second⟩ : request.sizeStr1 = other.sizeStr1 ∧ request.sizeStr2 = other.sizeStr2 := by
    rcases cut_at_star sizes with same | ⟨-, star⟩ | ⟨star, -⟩
    · exact same
    · exact absurd star plain'
    · exact absurd star plain
  have source : request.sourceImageName self = other.sourceImageName self := SizedRequest.source_of_target self target
  simp only [SizedRequest.info, source] at read read'
  obtain rfl := Except.ok.inj (read.symm.trans read')
  exact draw_congr name (congrArg ImageProcessor.sizeNumber first) (congrArg ImageProcessor.sizeNumber second) image

variable [DecidableEq W]

theorem owned_enter {state : State W} (owned : ∀ worker, (state.phase worker).Owned machine self magick) {worker : W}
    {phase : Phase} (entered : phase.Owned machine self magick) :
    ∀ other, ((state.enter worker phase).phase other).Owned machine self magick := by
  intro other
  by_cases here : other = worker
  · subst other
    simpa [State.enter] using entered
  · simpa [State.enter, here] using owned other

theorem owned_step {state : State W} (owned : ∀ worker, (state.phase worker).Owned machine self magick) {event : Event W}
    (orderly : Orderly magick state event) :
    ∀ worker, ((step machine self state event).phase worker).Owned machine self magick := by
  have idle (worker : W) := @owned_enter _ machine self magick _ state owned worker .idle trivial
  cases event with
  | request worker path =>
    simp only [step]
    split
    next info _ accepted =>
      split
      · exact owned
      · exact owned_enter owned ⟨_, path, accepted⟩
    next => exact owned
  | load worker library =>
    obtain rfl : library = magick := orderly
    simp only [step]
    split
    next info checked =>
      have accepted := owned worker
      rw [checked] at accepted
      split
      · split
        next image read =>
          split
          next permitted => exact owned_enter owned ⟨rfl, accepted, permitted, read⟩
          next => exact idle worker
        next => exact idle worker
      · exact idle worker
    next => exact owned
  | makeFolder worker =>
    simp only [step]
    split
    next info library image loaded =>
      have draws := owned worker
      rw [loaded] at draws
      exact owned_enter owned draws
    next => exact owned
  | create worker opened =>
    simp only [step]
    split
    next info library image prepared =>
      have draws := owned worker
      rw [prepared] at draws
      obtain ⟨rfl, draws⟩ := draws
      split
      next picture drawn =>
        split
        · exact owned_enter owned ⟨image, picture, draws, drawn, rfl⟩
        · exact idle worker
      next => exact idle worker
    next => exact owned
  | write worker count =>
    simp only [step]
    split
    next info content written saving =>
      have draws := owned worker
      rw [saving] at draws
      exact owned_enter owned draws
    next => exact owned
  | fail worker =>
    simp only [step]
    split
    next => exact idle worker
    next => exact owned
  | finish worker =>
    simp only [step]
    split
    next =>
      split
      · exact idle worker
      · exact owned
    next => exact owned

/-- Two saves of one target write the same, so a save can begin at any time. -/
theorem sound_orderly (wide : Wide self) {state : State W} (sound : Sound machine self state)
    (owned : ∀ worker, (state.phase worker).Owned machine self magick) {event : Event W} (orderly : Orderly magick state event) :
    Sound machine self (step machine self state event) := by
  cases event with
  | request worker path =>
    simp only [step]
    split
    next info idle accepted =>
      split
      · exact sound
      · exact sound_quiet sound (inactive_of_ne (by simp [idle])) (inactive_of_ne (by simp)) ⟨_, path, accepted⟩
    next => exact sound
  | load worker library => exact sound_load sound worker library
  | makeFolder worker => exact sound_step sound orderly
  | create worker opened =>
    apply sound_step sound
    rintro info library image picture prepared drawn other content written ⟨info', saving, target, -⟩
    have draws := owned worker
    rw [prepared] at draws
    obtain ⟨rfl, draws⟩ := draws
    have draws' := owned other
    rw [saving] at draws'
    obtain ⟨image', picture', draws', drawn', rfl⟩ := draws'
    rw [drawn_of_target wide draws' draws target, drawn] at drawn'
    rw [Except.ok.inj drawn']
  | write worker count => exact sound_step sound trivial
  | fail worker => exact sound_step sound orderly
  | finish worker => exact sound_finish sound worker

/-- In every run with one library, and in every state it comes to: a thumbnail that nobody is writing is
whole, however many saves of it have overlapped. -/
theorem whole_at_rest (machine : Machine) (self : ImageProcessor) (wide : Wide self) (magick : Magick) (start : State W)
    (idle : ∀ worker, start.phase worker = .idle)
    (stored : ∀ info content, Accepted self info → start.disk info.targetImageName = some content →
      Complete machine self info.targetImageName content)
    (events : List (Event W)) (orderly : Along (step machine self) (Orderly magick) start events) :
    let state := run (step machine self) start events
    ∀ info content, Accepted self info → state.disk info.targetImageName = some content →
      (∀ worker other written, ¬ Active state info.targetImageName worker other written) →
      Complete machine self info.targetImageName content := by
  intro state info content accepted found rest
  have keeps : ∀ (state : State W) (event : Event W), (Sound machine self state ∧ ∀ worker, (state.phase worker).Owned machine self magick) →
      Orderly magick state event → Sound machine self (step machine self state event) ∧
        ∀ worker, ((step machine self state event).phase worker).Owned machine self magick :=
    fun state event both orderly => ⟨sound_orderly wide both.1 both.2 orderly, owned_step both.2 orderly⟩
  have first : Sound machine self start ∧ ∀ worker, (start.phase worker).Owned machine self magick := by
    refine ⟨⟨fun worker => ?_, ?_⟩, fun worker => ?_⟩
    · rw [idle worker]
      trivial
    · rintro target content ⟨info, accepted, rfl⟩ found
      refine ⟨content, stored info content accepted found, Nat.le_refl _, ?_, Or.inl rfl⟩
      intro worker other written active
      exact absurd active (not_active (inactive_of_ne (by simp [idle worker])))
    · rw [idle worker]
      trivial
  obtain ⟨whole, growing⟩ := (run_keeps keeps first orderly).1.thumbnails _ content ⟨info, accepted, rfl⟩ found
  rcases growing.begun with rfl | ⟨worker, written, active, -⟩
  · exact growing.complete
  · exact absurd active (rest worker whole written)

/-- The second worker begins its save in the middle of the first one. -/
def overlapping : List (Event Bool) :=
  [.request false (bytes "/p/a.100x100.jpg"), .request true (bytes "/p/a.100x100.jpg"), .load false (.obliging 1000 800),
    .load true (.obliging 1000 800), .makeFolder false, .makeFolder true, .create false true, .write false 2, .create true true,
    .write false 2, .write true 4, .finish false, .finish true]

theorem overlapping_whole :
    let state := run (step jpeg Thumbnail.processor) twoWorkers overlapping
    ∀ info content, Accepted Thumbnail.processor info → state.disk info.targetImageName = some content →
      (∀ worker other written, ¬ Active state info.targetImageName worker other written) →
      Complete jpeg Thumbnail.processor info.targetImageName content := by
  have stored : ∀ info content, Accepted Thumbnail.processor info →
      twoWorkers.disk info.targetImageName = some content →
      Complete jpeg Thumbnail.processor info.targetImageName content := by
    rintro info content ⟨files, path, accepted⟩ found
    have under := target_under_root accepted
    have upload : info.targetImageName = bytes "/www/target/images/public/p/a.jpg" := by
      by_contra other
      simp [twoWorkers, other] at found
    rw [upload] at under
    exact absurd under (by decide +kernel)
  have folders {events : List (Event Bool)} {worker : Bool}
      (line : ((run (step jpeg Thumbnail.processor) twoWorkers events).phase worker).info?.map mkdirLine =
        some (bytes "mkdir -p /www/target/images/thumbnail/p/")) :
      Orderly (.obliging 1000 800) (run (step jpeg Thumbnail.processor) twoWorkers events) (.makeFolder worker) := by
    intro info magick image loaded
    rw [congrArg Phase.info? loaded] at line
    rw [show mkdirLine info = _ from Option.some.inj line]
    exact Or.inl ⟨[Shell.literal (bytes "/www/target/images/thumbnail/p/")], by decide +kernel⟩
  refine whole_at_rest jpeg Thumbnail.processor ?_ (.obliging 1000 800) twoWorkers (fun _ => rfl) stored overlapping ?_
  · unfold Wide
    decide +kernel
  · exact ⟨trivial, trivial, rfl, rfl, @folders (overlapping.take 4) false (by decide +kernel),
      @folders (overlapping.take 5) true (by decide +kernel), trivial, trivial, trivial, trivial, trivial, trivial, trivial,
      trivial⟩

end ImageServer.Workers
