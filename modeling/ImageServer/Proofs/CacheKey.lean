import ImageServer.Proofs.ThumbInfo

/-! The name of a thumbnail and the size that was asked for. The two size texts are
joined by a star, which they may hold themselves. -/

namespace ImageServer
open Lua

/-- A size text that is not read as a number. -/
def Unsized (text : Bytes) : Prop := text = bytes "0" ∨ 42 ∈ text

instance (text : Bytes) : Decidable (Unsized text) := inferInstanceAs (Decidable (_ ∨ _))

theorem sizeNumber_none_iff {text : Bytes} (size : IsSize text) :
    ImageProcessor.sizeNumber text = none ↔ Unsized text := by
  rw [sizeNumber_eq size]
  unfold Unsized
  split
  next unsized => exact iff_of_true rfl unsized
  next sized => exact iff_of_false (by simp) sized

/-- Two ways to cut a text at a star are the same, or each has a part with a star in it. -/
theorem cut_at_star {first second first' second' : Bytes}
    (same : first ++ 42 :: second = first' ++ 42 :: second') :
    (first = first' ∧ second = second') ∨ (42 ∈ second ∧ 42 ∈ first') ∨ (42 ∈ first ∧ 42 ∈ second') := by
  rcases List.append_eq_append_iff.mp same with ⟨between, rfl, tail⟩ | ⟨between, rfl, tail⟩
  · cases between with
    | nil => exact Or.inl ⟨by simp, (List.cons.inj tail).2⟩
    | cons b between =>
      obtain ⟨rfl, rfl⟩ := List.cons.inj tail
      exact Or.inr (Or.inl ⟨by simp, by simp⟩)
  · cases between with
    | nil => exact Or.inl ⟨by simp, (List.cons.inj tail).2.symm⟩
    | cons b between =>
      obtain ⟨rfl, rfl⟩ := List.cons.inj tail
      exact Or.inr (Or.inr ⟨by simp, by simp⟩)

/-- Two requests for one target ask for the same size exactly when their size texts are the
same, or none of the four texts is a number. -/
theorem target_decides_size_iff (self : ImageProcessor) {files files' : Files} {path path' : Bytes}
    {info info' : ThumbInfo} {width height width' height' : Bytes}
    (accepted : self.extractThumbInfo files path = some info)
    (accepted' : self.extractThumbInfo files' path' = some info')
    (texts : sizeTexts path = some (width, height)) (texts' : sizeTexts path' = some (width', height'))
    (source : info.sourceImageName = info'.sourceImageName)
    (target : info.targetImageName = info'.targetImageName) :
    (info.width = info'.width ∧ info.height = info'.height) ↔
      (width = width' ∧ height = height') ∨
        (Unsized width ∧ Unsized height ∧ Unsized width' ∧ Unsized height') := by
  obtain ⟨request, of, rfl⟩ := extractThumbInfo_some accepted
  obtain ⟨other, of', rfl⟩ := extractThumbInfo_some accepted'
  obtain ⟨rfl, rfl⟩ := Prod.mk.inj (Option.some.inj (of.sizes.symm.trans texts))
  obtain ⟨rfl, rfl⟩ := Prod.mk.inj (Option.some.inj (of'.sizes.symm.trans texts'))
  have joined := (SizedRequest.requestImageName_inj (List.append_cancel_left target)).2.1
  simp only [SizedRequest.info]
  have none1 := sizeNumber_none_iff request.size1
  have none2 := sizeNumber_none_iff request.size2
  have none1' := sizeNumber_none_iff other.size1
  have none2' := sizeNumber_none_iff other.size2
  constructor
  · intro holds
    obtain ⟨sameWidth, sameHeight⟩ := holds
    rcases cut_at_star joined with same | ⟨star, star'⟩ | ⟨star, star'⟩
    · exact Or.inl same
    · have height := none2.mpr (Or.inr star)
      have width' := none1'.mpr (Or.inr star')
      exact Or.inr ⟨none1.mp (sameWidth.trans width'), none2.mp height, none1'.mp width',
        none2'.mp (sameHeight.symm.trans height)⟩
    · have width := none1.mpr (Or.inr star)
      have height' := none2'.mpr (Or.inr star')
      exact Or.inr ⟨none1.mp width, none2.mp (sameHeight.trans height'), none1'.mp (sameWidth.symm.trans width),
        none2'.mp height'⟩
  · rintro (⟨width, height⟩ | ⟨width, height, width', height'⟩)
    · rw [width, height]
      exact ⟨rfl, rfl⟩
    · rw [none1.mpr width, none2.mpr height, none1'.mpr width', none2'.mpr height']
      exact ⟨rfl, rfl⟩

/-- Either letter between the sizes gives the same target and the same size. -/
theorem target_decides_size_600 :
    let info := Thumbnail.processor.extractThumbInfo (fun _ => none)
    ((info (bytes "/a.600x0.jpg")).map (fun info => (info.width, info.height)) =
      (info (bytes "/a.600X0.jpg")).map fun info => (info.width, info.height)) := by
  have first : ∃ info, Thumbnail.processor.extractThumbInfo (fun _ => none) (bytes "/a.600x0.jpg") = some info :=
    Option.isSome_iff_exists.mp (by decide +kernel)
  have second : ∃ info, Thumbnail.processor.extractThumbInfo (fun _ => none) (bytes "/a.600X0.jpg") = some info :=
    Option.isSome_iff_exists.mp (by decide +kernel)
  obtain ⟨info, accepted⟩ := first
  obtain ⟨info', accepted'⟩ := second
  have source : (some info).map (·.sourceImageName) = (some info').map (·.sourceImageName) := by
    rw [← accepted, ← accepted']
    decide +kernel
  have target : (some info).map (·.targetImageName) = (some info').map (·.targetImageName) := by
    rw [← accepted, ← accepted']
    decide +kernel
  have texts : sizeTexts (bytes "/a.600x0.jpg") = some (bytes "600", bytes "0") := by decide +kernel
  have texts' : sizeTexts (bytes "/a.600X0.jpg") = some (bytes "600", bytes "0") := by decide +kernel
  have same := (target_decides_size_iff Thumbnail.processor accepted accepted' texts texts'
    (Option.some.inj source) (Option.some.inj target)).mpr (Or.inl ⟨rfl, rfl⟩)
  simp only [accepted, accepted', Option.map_some, same.1, same.2]

/-- A star may belong to either of the two size texts: a width of nil and a height of two
share their target with a width of one and a height of nil. -/
theorem starred_sizes_share_target :
    let info := Thumbnail.processor.extractThumbInfo (fun _ => none)
    let first := info (bytes "/a.1*x2.jpg")
    let second := info (bytes "/a.1x*2.jpg")
    first.isSome = true ∧ second.isSome = true ∧
      first.map (·.sourceImageName) = second.map (·.sourceImageName) ∧
      first.map (·.targetImageName) = second.map (·.targetImageName) ∧
      first.map (·.width) ≠ second.map (·.width) ∧ first.map (·.height) ≠ second.map (·.height) := by
  decide +kernel

end ImageServer
