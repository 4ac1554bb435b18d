import ImageServer.Proofs.Generation
import ImageServer.Proofs.ThumbInfo
import ImageServer.Runs
import ImageServer.Thumbnail
import ImageServer.ThumbnailWorkers

/-! Answers from the cache while other workers generate. A thumbnail is saved in place, so a
worker that finds it may find a part of it. It finds a whole one as long as no save fails
midway, nobody looks at a thumbnail that is being written, and two saves of one thumbnail at
a time write the same. -/

namespace ImageServer.Workers
open InPlace

variable {W : Type}

def Accepted (self : ImageProcessor) (info : ThumbInfo) : Prop :=
  ∃ files path, self.extractThumbInfo files path = some info

/-- Everything that is to be written for one accepted request. -/
def Renders (machine : Machine) (self : ImageProcessor) (info : ThumbInfo) (content : Bytes) : Prop :=
  Accepted self info ∧ ∃ magick image picture, Image.new magick (some info.sourceImageName) = .ok image ∧
    draw self magick image info = .ok picture ∧ content = machine.encode picture

/-- A complete thumbnail for a path. -/
def Complete (machine : Machine) (self : ImageProcessor) (target content : Bytes) : Prop :=
  ∃ info, info.targetImageName = target ∧ Renders machine self info content

/-- A save of the target has begun and has not written everything. -/
def Active (state : State W) (target : Bytes) (worker : W) (content : Bytes) (written : Nat) : Prop :=
  ∃ info, state.phase worker = .saving info content written ∧ info.targetImageName = target ∧ written < content.length

/-- A phase that is not in the middle of a save. -/
def Phase.Inactive (phase : Phase) : Prop :=
  ∀ info content written, phase = .saving info content written → written = content.length

/-- Nothing disturbs a save, and nobody looks at what is being saved. -/
def Undisturbed (machine : Machine) (self : ImageProcessor) (state : State W) : Event W → Prop
  | .request _ path => ∀ info, self.extractThumbInfo (filesOf state.disk) path = some info →
      ∀ other content written, ¬ Active state info.targetImageName other content written
  | .makeFolder worker => ∀ info magick image, state.phase worker = .loaded info magick image →
      MakesFolders (mkdirLine info)
  | .create worker _ => ∀ info magick image picture, state.phase worker = .prepared info magick image →
      draw self magick image info = .ok picture → ∀ other content written,
        Active state info.targetImageName other content written → content = machine.encode picture
  | .fail worker => (state.phase worker).Inactive
  | _ => True

/-- A worker that finds the target and answers finds a complete thumbnail. -/
def AnswersComplete (machine : Machine) (self : ImageProcessor) (state : State W) : Event W → Prop
  | .request worker path => state.phase worker = .idle → ∀ info,
      self.extractThumbInfo (filesOf state.disk) path = some info → info.targetFileExists = true →
        ∃ content, state.disk info.targetImageName = some content ∧
          Complete machine self info.targetImageName content
  | _ => True

/-- What a phase carries was checked in the phases before. -/
def Phase.Valid (machine : Machine) (self : ImageProcessor) : Phase → Prop
  | .idle => True
  | .checked info => Accepted self info
  | .loaded info magick image | .prepared info magick image =>
    Accepted self info ∧ Image.new magick (some info.sourceImageName) = .ok image
  | .saving info content written => Renders machine self info content ∧ written ≤ content.length

/-- A file is complete, or some save that is not finished has written the right beginning. -/
structure Growing (machine : Machine) (processor : ImageProcessor) (state : State W) (target content whole : Bytes) :
    Prop where
  complete : Complete machine processor target whole
  short : content.length ≤ whole.length
  same : ∀ worker other written, Active state target worker other written → other = whole
  begun : content = whole ∨ ∃ worker written, Active state target worker whole written ∧ Agrees content whole written

structure Sound (machine : Machine) (processor : ImageProcessor) (state : State W) : Prop where
  phases : ∀ worker, (state.phase worker).Valid machine processor
  thumbnails : ∀ target content, (∃ info, Accepted processor info ∧ info.targetImageName = target) →
    state.disk target = some content → ∃ whole, Growing machine processor state target content whole

section
variable {machine : Machine} {self : ImageProcessor}

theorem not_active {state : State W} {worker : W} (inactive : (state.phase worker).Inactive) {target content : Bytes}
    {written : Nat} : ¬ Active state target worker content written := by
  intro holds
  obtain ⟨info, saving, -, less⟩ := holds
  exact Nat.ne_of_lt less (inactive info content written saving)

theorem inactive_of_ne {phase : Phase} (other : ∀ info content written, phase ≠ .saving info content written) :
    phase.Inactive :=
  fun info content written saving => absurd saving (other info content written)

theorem Growing.congr {state after : State W} {target content whole : Bytes}
    (growing : Growing machine self state target content whole)
    (same : ∀ worker other written, Active after target worker other written ↔
      Active state target worker other written) : Growing machine self after target content whole where
  complete := growing.complete
  short := growing.short
  same worker other written active := growing.same worker other written ((same ..).mp active)
  begun := by
    rcases growing.begun with done | ⟨worker, written, active, agrees⟩
    · exact Or.inl done
    · exact Or.inr ⟨worker, written, (same ..).mpr active, agrees⟩

theorem answer_complete {state : State W} {event : Event W} (sound : Sound machine self state)
    (undisturbed : Undisturbed machine self state event) : AnswersComplete machine self state event := by
  cases event with
  | request worker path =>
    intro _ info accepted present
    have found : ∃ content, state.disk info.targetImageName = some content := by
      have same := extractThumbInfo_present accepted
      rw [same] at present
      simpa [isFileExists, filesOf, Option.isSome_iff_exists] using present
    obtain ⟨content, stored⟩ := found
    obtain ⟨whole, growing⟩ := sound.thumbnails _ content ⟨info, ⟨_, path, accepted⟩, rfl⟩ stored
    rcases growing.begun with rfl | ⟨other, written, active, -⟩
    · exact ⟨content, stored, growing.complete⟩
    · exact absurd active (undisturbed info accepted other whole written)
  | _ => trivial

variable [DecidableEq W]

theorem phases_enter {state : State W} (valid : ∀ worker, (state.phase worker).Valid machine self) {worker : W}
    {phase : Phase} (entered : phase.Valid machine self) :
    ∀ other, ((state.enter worker phase).phase other).Valid machine self := by
  intro other
  by_cases here : other = worker
  · subst other
    simpa [State.enter] using entered
  · simpa [State.enter, here] using valid other

theorem active_other {state : State W} {worker other : W} (elsewhere : other ≠ worker) {phase : Phase}
    {disk : Disk} {target content : Bytes} {written : Nat} :
    Active { state.enter worker phase with disk := disk } target other content written ↔
      Active state target other content written := by
  simp [Active, State.enter, elsewhere]

theorem active_self {state : State W} {worker : W} {phase : Phase} {disk : Disk} {target content : Bytes}
    {written : Nat} :
    Active { state.enter worker phase with disk := disk } target worker content written ↔
      ∃ info, phase = .saving info content written ∧ info.targetImageName = target ∧ written < content.length := by
  simp [Active, State.enter]

/-- A worker that is not in the middle of a save before and after leaves every save as it is. -/
theorem active_quiet {state : State W} {worker : W} {phase : Phase} (before : (state.phase worker).Inactive)
    (after : phase.Inactive) {disk : Disk} {target content : Bytes} {written : Nat} (other : W) :
    Active { state.enter worker phase with disk := disk } target other content written ↔
      Active state target other content written := by
  by_cases here : other = worker
  · subst other
    refine iff_of_false ?_ (not_active before)
    rw [active_self]
    intro holds
    obtain ⟨info, saving, -, less⟩ := holds
    exact Nat.ne_of_lt less (after info content written saving)
  · exact active_other here

theorem sound_quiet {state : State W} (sound : Sound machine self state) {worker : W} {phase : Phase}
    (before : (state.phase worker).Inactive) (after : phase.Inactive) (entered : phase.Valid machine self) :
    Sound machine self (state.enter worker phase) where
  phases := phases_enter sound.phases entered
  thumbnails := by
    intro target content accepted found
    obtain ⟨whole, growing⟩ := sound.thumbnails target content accepted found
    have quiet (other : W) (content : Bytes) (written : Nat) :
        Active (state.enter worker phase) target other content written ↔ Active state target other content written :=
      active_quiet before after other
    exact ⟨whole, growing.congr quiet⟩

theorem active_elsewhere {state : State W} {worker : W} {info : ThumbInfo} {content : Bytes} {written : Nat}
    (before : ∀ other content written, state.phase worker = .saving other content written →
      other.targetImageName = info.targetImageName) {disk : Disk} {target : Bytes}
    (elsewhere : target ≠ info.targetImageName) (other : W) (text : Bytes) (done : Nat) :
    Active { state.enter worker (.saving info content written) with disk := disk } target other text done ↔
      Active state target other text done := by
  by_cases here : other = worker
  · subst other
    refine iff_of_false ?_ ?_
    · rw [active_self]
      intro holds
      obtain ⟨same, saving, rfl, -⟩ := holds
      cases saving
      exact elsewhere rfl
    · intro holds
      obtain ⟨same, saving, rfl, -⟩ := holds
      exact elsewhere (before same text done saving)
  · exact active_other here

theorem sound_create {state : State W} (sound : Sound machine self state) {worker : W} {info : ThumbInfo}
    {magick : Magick} {image picture : Image} (prepared : state.phase worker = .prepared info magick image)
    (drawn : draw self magick image info = .ok picture)
    (agreed : ∀ other content written, Active state info.targetImageName other content written →
      content = machine.encode picture) :
    Sound machine self { state.enter worker (.saving info (machine.encode picture) 0) with
      disk := Function.update state.disk info.targetImageName (some []) } := by
  have valid := sound.phases worker
  rw [prepared] at valid
  obtain ⟨accepted, read⟩ := valid
  have renders : Renders machine self info (machine.encode picture) :=
    ⟨accepted, magick, image, picture, read, drawn, rfl⟩
  refine ⟨phases_enter sound.phases ⟨renders, Nat.zero_le _⟩, ?_⟩
  intro target content isTarget found
  by_cases here : target = info.targetImageName
  · subst target
    obtain rfl : [] = content := by simpa using found
    refine ⟨machine.encode picture, ⟨info, rfl, renders⟩, Nat.zero_le _, ?_, ?_⟩
    · intro other content written active
      by_cases own : other = worker
      · subst other
        obtain ⟨_, saving, -⟩ := active_self.mp active
        cases saving
        rfl
      · exact agreed other content written ((active_other own).mp active)
    · rcases Nat.eq_zero_or_pos (machine.encode picture).length with empty | some
      · exact Or.inl (List.length_eq_zero_iff.mp empty).symm
      · exact Or.inr ⟨worker, 0, active_self.mpr ⟨info, rfl, rfl, some⟩, fun i below => absurd below (Nat.not_lt_zero i)⟩
  · have kept : state.disk target = some content := by simpa [here] using found
    obtain ⟨whole, growing⟩ := sound.thumbnails target content isTarget kept
    exact ⟨whole, growing.congr (active_elsewhere (by simp [prepared]) here)⟩

/-- One write of a save that is not finished: whatever was right stays right, and the writer's own
part grows. -/
theorem growing_write {state : State W} {worker : W} {info : ThumbInfo} {content : Bytes} {written : Nat}
    (saving : state.phase worker = .saving info content written) (unfinished : written < content.length)
    {text whole : Bytes} (growing : Growing machine self state info.targetImageName text whole) (count : Nat)
    (disk : Disk) :
    Growing machine self
      { state.enter worker (.saving info content (written + (slice content written count).length)) with disk := disk }
      info.targetImageName (writeAt text written (slice content written count)) whole := by
  obtain rfl : content = whole := growing.same worker content written ⟨info, saving, rfl, unfinished⟩
  have inside : written ≤ content.length := Nat.le_of_lt unfinished
  have short := length_writeAt_slice growing.short inside count
  refine ⟨growing.complete, short, ?_, ?_⟩
  · intro other own done active
    by_cases here : other = worker
    · subst other
      obtain ⟨_, same, -⟩ := active_self.mp active
      cases same
      rfl
    · exact growing.same other own done ((active_other here).mp active)
  rcases growing.begun with rfl | ⟨other, done, active, agrees⟩
  · exact Or.inl (writeAt_complete text inside count)
  by_cases here : other = worker
  · subst other
    obtain ⟨_, same, -, -⟩ := active
    rw [saving] at same
    cases same
    have advanced := agrees.advance inside count
    rcases Nat.lt_or_eq_of_le (slice_within content inside count) with less | all
    · exact Or.inr ⟨worker, _, active_self.mpr ⟨info, rfl, rfl, less⟩, advanced⟩
    · rw [all] at advanced
      exact Or.inl (advanced.complete short)
  · obtain ⟨_, -, -, below⟩ := id active
    exact Or.inr ⟨other, done, (active_other here).mpr active, agrees.writeAt (Nat.le_of_lt below) written count⟩

theorem sound_write {state : State W} (sound : Sound machine self state) {worker : W} {info : ThumbInfo}
    {content : Bytes} {written : Nat} (saving : state.phase worker = .saving info content written) (count : Nat) :
    Sound machine self { state.enter worker (.saving info content (written + (slice content written count).length)) with
      disk := Function.update state.disk info.targetImageName
        ((state.disk info.targetImageName).map (writeAt · written (slice content written count))) } := by
  have valid := sound.phases worker
  rw [saving] at valid
  obtain ⟨renders, inside⟩ := valid
  have within := slice_within content inside count
  refine ⟨phases_enter sound.phases ⟨renders, within⟩, ?_⟩
  intro target text isTarget found
  by_cases here : target = info.targetImageName
  · subst target
    obtain ⟨before, kept, rfl⟩ : ∃ before, state.disk info.targetImageName = some before ∧
        writeAt before written (slice content written count) = text := by simpa using found
    obtain ⟨whole, growing⟩ := sound.thumbnails _ before isTarget kept
    rcases Nat.lt_or_eq_of_le inside with unfinished | finished
    · exact ⟨whole, growing_write saving unfinished growing count _⟩
    · have nothing : slice content written count = [] := by simp [slice, finished]
      have inactive : (state.phase worker).Inactive := by
        intro other own done same
        rw [saving] at same
        cases same
        exact finished
      simp only [nothing, writeAt, List.isEmpty_nil, if_true, List.length_nil, Nat.add_zero]
      exact ⟨whole, growing.congr fun other _ _ => active_quiet inactive (saving ▸ inactive) other⟩
  · have kept : state.disk target = some text := by simpa [here] using found
    obtain ⟨whole, growing⟩ := sound.thumbnails target text isTarget kept
    refine ⟨whole, growing.congr (active_elsewhere ?_ here)⟩
    intro other content' written' same
    rw [saving] at same
    cases same
    rfl

theorem sound_load {state : State W} (sound : Sound machine self state) (worker : W) (magick : Magick) :
    Sound machine self (step machine self state (.load worker magick)) := by
  simp only [step]
  split
  next info checked =>
    have valid := sound.phases worker
    rw [checked] at valid
    have before : (state.phase worker).Inactive := inactive_of_ne (by simp [checked])
    have idle : Sound machine self (state.enter worker .idle) :=
      sound_quiet sound before (inactive_of_ne (by simp)) trivial
    split
    · split
      next image read =>
        split
        · exact sound_quiet sound before (inactive_of_ne (by simp)) ⟨valid, read⟩
        · exact idle
      next => exact idle
    · exact idle
  next => exact sound

theorem sound_finish {state : State W} (sound : Sound machine self state) (worker : W) :
    Sound machine self (step machine self state (.finish worker)) := by
  simp only [step]
  split
  next info content written saving =>
    split
    next all =>
      have inactive : (state.phase worker).Inactive := by
        intro other own done same
        rw [saving] at same
        cases same
        exact all
      exact sound_quiet sound inactive (inactive_of_ne (by simp)) trivial
    next => exact sound
  next => exact sound

theorem sound_step {state : State W} {event : Event W} (sound : Sound machine self state)
    (undisturbed : Undisturbed machine self state event) : Sound machine self (step machine self state event) := by
  cases event with
  | request worker path =>
    simp only [step]
    split
    next info idle accepted =>
      split
      · exact sound
      · exact sound_quiet sound (inactive_of_ne (by simp [idle])) (inactive_of_ne (by simp)) ⟨_, path, accepted⟩
    next => exact sound
  | load worker magick => exact sound_load sound worker magick
  | makeFolder worker =>
    simp only [step]
    split
    next info magick image loaded =>
      have valid := sound.phases worker
      rw [loaded] at valid
      have kept := machine.mkdir_keeps _ state.disk (undisturbed info magick image loaded)
      rw [mkdirLine] at kept
      rw [kept]
      exact sound_quiet sound (inactive_of_ne (by simp [loaded])) (inactive_of_ne (by simp)) valid
    next => exact sound
  | create worker opened =>
    simp only [step]
    split
    next info magick image prepared =>
      have idle : Sound machine self (state.enter worker .idle) :=
        sound_quiet sound (inactive_of_ne (by simp [prepared])) (inactive_of_ne (by simp)) trivial
      split
      next picture drawn =>
        split
        · exact sound_create sound prepared drawn (undisturbed info magick image picture prepared drawn)
        · exact idle
      next => exact idle
    next => exact sound
  | write worker count =>
    simp only [step]
    split
    next info content written saving => exact sound_write sound saving count
    next => exact sound
  | fail worker =>
    simp only [step]
    split
    next => exact sound_quiet sound undisturbed (inactive_of_ne (by simp)) trivial
    next => exact sound
  | finish worker => exact sound_finish sound worker

/-- In every run that nothing disturbs, every answer from the cache is a complete thumbnail. -/
theorem cached_answers_complete (machine : Machine) (self : ImageProcessor) (start : State W)
    (idle : ∀ worker, start.phase worker = .idle)
    (stored : ∀ info content, Accepted self info → start.disk info.targetImageName = some content →
      Complete machine self info.targetImageName content)
    (events : List (Event W)) (undisturbed : Runs.Along (step machine self) (Undisturbed machine self) start events) :
    Runs.Along (step machine self) (AnswersComplete machine self) start events := by
  have sound : Sound machine self start := by
    refine ⟨fun worker => ?_, ?_⟩
    · rw [idle worker]
      trivial
    · rintro target content ⟨info, accepted, rfl⟩ found
      refine ⟨content, stored info content accepted found, Nat.le_refl _, ?_, Or.inl rfl⟩
      intro worker other written active
      exact absurd active (not_active (inactive_of_ne (by simp [idle worker])))
  exact Runs.Along.of_invariant (fun _ _ sound undisturbed => sound_step sound undisturbed)
    (fun _ _ sound undisturbed => answer_complete sound undisturbed) sound undisturbed

end

def Phase.save? : Phase → Option (Bytes × Nat)
  | .saving _ content written => some (content, written)
  | _ => none

def Phase.info? : Phase → Option ThumbInfo
  | .idle => none
  | .checked info | .loaded info _ _ | .prepared info _ _ | .saving info _ _ => some info

theorem Phase.idle_of_info {phase : Phase} (none : phase.info? = none) : phase = .idle := by
  cases phase <;> first | rfl | cases none

theorem none_active {state : State W} (none : ∀ worker, (state.phase worker).save? = none) (target : Bytes)
    (worker : W) (content : Bytes) (written : Nat) : ¬ Active state target worker content written := by
  intro holds
  obtain ⟨info, saving, -⟩ := holds
  have saved := none worker
  rw [saving] at saved
  cases saved

/-- Every picture is written as the same four bytes, and no command does anything. -/
def jpeg : Machine where
  encode _ := bytes "JPEG"
  shell _ disk := disk
  mkdir_keeps _ _ _ := rfl

def twoWorkers : State Bool where
  disk path := if path = bytes "/www/target/images/public/p/a.jpg" then some (bytes "upload") else none
  phase _ := .idle

def generating : List (Event Bool) :=
  [.request false (bytes "/p/a.100x100.jpg"), .load false (.obliging 1000 800), .makeFolder false, .create false true]

theorem partial_answer {state : State Bool} {path : Bytes} (idle : state.phase true = .idle)
    (found : (Thumbnail.processor.extractThumbInfo (filesOf state.disk) path).any (fun info =>
      info.targetFileExists && decide (state.disk info.targetImageName = some [])) = true) :
    ¬ AnswersComplete jpeg Thumbnail.processor state (.request true path) := by
  intro complete
  obtain ⟨info, accepted, facts⟩ := (Option.any_eq_true _ _).mp found
  simp only [Bool.and_eq_true, decide_eq_true_eq] at facts
  obtain ⟨content, stored, other, -, -, magick, image, picture, -, -, written⟩ := complete idle info accepted facts.1
  rw [facts.2] at stored
  cases stored
  cases written

/-- The second worker is answered from an empty file, whether the save is still going on or has failed. -/
theorem two_workers_see_a_part :
    ¬ Runs.Along (step jpeg Thumbnail.processor) (AnswersComplete jpeg Thumbnail.processor) twoWorkers
      (generating ++ [.request true (bytes "/p/a.100x100.jpg")]) ∧
    ¬ Runs.Along (step jpeg Thumbnail.processor) (AnswersComplete jpeg Thumbnail.processor) twoWorkers
      (generating ++ [.fail false, .request true (bytes "/p/a.100x100.jpg")]) := by
  constructor
  · intro along
    exact partial_answer (Phase.idle_of_info (by decide +kernel)) (by decide +kernel) (Runs.Along.append along).2.1
  · intro along
    exact partial_answer (Phase.idle_of_info (by decide +kernel)) (by decide +kernel) (Runs.Along.append along).2.2.1

/-- One worker generates to the end, and then the other answers. -/
theorem cached_answer_after_finish :
    Runs.Along (step jpeg Thumbnail.processor) (AnswersComplete jpeg Thumbnail.processor) twoWorkers
      (generating ++ [.write false 4, .finish false, .request true (bytes "/p/a.100x100.jpg")]) := by
  have stored : ∀ info content, Accepted Thumbnail.processor info →
      twoWorkers.disk info.targetImageName = some content →
      Complete jpeg Thumbnail.processor info.targetImageName content := by
    rintro info content ⟨files, path, accepted⟩ found
    have under := target_under_root accepted
    have upload : info.targetImageName = bytes "/www/target/images/public/p/a.jpg" := by
      by_contra other
      simp [twoWorkers, other] at found
    rw [upload] at under
    exact absurd under (by decide +kernel)
  refine cached_answers_complete jpeg Thumbnail.processor twoWorkers (fun _ => rfl) stored _ ?_
  refine ⟨?_, trivial, ?_, ?_, trivial, trivial, ?_, trivial⟩
  · exact fun info _ => none_active (fun _ => rfl) _
  · intro info magick image loaded
    have line : ((Runs.run (step jpeg Thumbnail.processor) twoWorkers (generating.take 2)).phase false).info?.map
        mkdirLine = some (bytes "mkdir -p /www/target/images/thumbnail/p/") := by decide +kernel
    have same : ((Runs.run (step jpeg Thumbnail.processor) twoWorkers (generating.take 2)).phase false).info? =
        some info := congrArg Phase.info? loaded
    rw [same] at line
    rw [show mkdirLine info = _ from Option.some.inj line]
    exact Or.inl ⟨[Shell.literal (bytes "/www/target/images/thumbnail/p/")], by decide +kernel⟩
  · intro info magick image picture _ _ other content written active
    exact absurd active (none_active (by decide +kernel) _ _ _ _)
  · exact fun info _ => none_active (by decide +kernel) _

end ImageServer.Workers
