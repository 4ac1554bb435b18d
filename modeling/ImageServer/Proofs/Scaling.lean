import ImageServer.Scaling
import Mathlib.Tactic.Linarith
import Mathlib.Tactic.FieldSimp

/-! What one run of `thumbnail4LargeImgs` asks of the library, over any arithmetic, and when every
size that it asks for has a pixel in exact arithmetic. -/

namespace ImageServer

theorem truncate_of_nonneg {value : ℚ} (nonneg : 0 ≤ value) : truncate value = ⌊value⌋ := if_pos nonneg

theorem truncate_int (value : ℤ) : truncate (value : ℚ) = value := by
  unfold truncate
  split
  · exact Int.floor_intCast value
  · exact Int.ceil_intCast value

theorem one_le_truncate_iff {value : ℚ} : 1 ≤ truncate value ↔ 1 ≤ value := by
  unfold truncate
  split
  next => rw [Int.le_floor, Int.cast_one]
  next negative =>
    refine iff_of_false ?_ (by linarith)
    have := Int.ceil_le.mpr (show value ≤ ((0 : ℤ) : ℚ) by push_cast; linarith)
    omega

theorem truncate_near (value : ℚ) : |value - truncate value| < 1 := by
  unfold truncate
  rw [abs_lt]
  split
  · have below := Int.floor_le value
    have above := Int.lt_floor_add_one value
    constructor <;> linarith
  · have below := Int.ceil_lt_add_one value
    have above := Int.le_ceil value
    constructor <;> linarith

theorem toInt_fin (value : ℚ) : Number.toInt (.fin value) = truncate value := rfl

def Image.scaled (image : Image) (rwidth rheight : ℤ) : Image :=
  ⟨image.path, rwidth, rheight, 0, 0, rwidth, rheight, image.marks⟩

namespace Wand
open Arithmetic
section
variable {α : Type} [Arithmetic α] (magick : Magick) (wand : Wand)

/-- The wand after a call of the library for one more size. -/
def asked (image : Image) (width height : ℤ) : Wand := ⟨image, wand.resizes ++ [(width, height)]⟩

def resized (width height : α) (report : Report α) : Except LuaError (Report α) × Wand :=
  match magick.resizeImage (wand.image.width, wand.image.height) (toInt width) (toInt height) with
  | none => (.error (.thrown (Image.magickName ++ bytes ": error resizing image")),
      wand.asked wand.image (toInt width) (toInt height))
  | some (rwidth, rheight) =>
    (.ok report, wand.asked (wand.image.scaled rwidth rheight) (toInt width) (toInt height))

theorem resize_run (width height : α) :
    resize magick width height wand =
      match magick.resizeImage (wand.image.width, wand.image.height) (toInt width) (toInt height) with
      | none => (.error (.thrown (Image.magickName ++ bytes ": error resizing image")),
          wand.asked wand.image (toInt width) (toInt height))
      | some (rwidth, rheight) =>
        (.ok (), wand.asked (wand.image.scaled rwidth rheight) (toInt width) (toInt height)) := by
  simp only [resize, Exec.bind_run, Exec.get_run, Exec.modify_run]
  cases magick.resizeImage (wand.image.width, wand.image.height) (toInt width) (toInt height) <;> rfl

theorem resized_run (width height : α) (report : Report α) :
    ((setSize magick (some width) (some height) : Exec LuaError Wand Unit) >>= fun _ => pure report) wand =
      resized magick wand width height report := by
  have same : setSize magick (some width) (some height) wand = resize magick width height wand := rfl
  rw [Exec.bind_run, same, resize_run, resized]
  cases magick.resizeImage (wand.image.width, wand.image.height) (toInt width) (toInt height) <;> rfl

theorem resized_resizes (width height : α) (report : Report α) :
    (resized magick wand width height report).2.resizes = wand.resizes ++ [(toInt width, toInt height)] := by
  unfold resized
  split <;> rfl

variable {magick wand} in
theorem resized_done {width height : α} {rwidth rheight : ℤ}
    (made : magick.resizeImage (wand.image.width, wand.image.height) (toInt width) (toInt height) =
      some (rwidth, rheight))
    (report : Report α) : resized magick wand width height report =
      (.ok report, wand.asked (wand.image.scaled rwidth rheight) (toInt width) (toInt height)) := by
  rw [resized, made]

theorem width_run (width : α) :
    thumbnail4LargeImgs magick (some width) none wand =
      if lt (ofInt wand.image.width) (width * ofRat (11 / 10)) then
        (.ok ⟨false, some (ofInt wand.image.width), none, some (ofInt wand.image.height), ofInt 0, ofInt 0⟩, wand)
      else
        let height := ofInt wand.image.height * width / ofInt wand.image.width
        resized magick wand width height ⟨true, some width, some height, none, ofInt 0, ofInt 0⟩ := by
  simp only [thumbnail4LargeImgs, size, Exec.bind_run, Exec.get_run, Exec.pure_run]
  split
  · rfl
  · exact resized_run ..

theorem height_run (height : α) :
    thumbnail4LargeImgs magick none (some height) wand =
      if lt (ofInt wand.image.height) (height * ofRat (11 / 10)) then
        (.ok ⟨false, some (ofInt wand.image.width), some (ofInt wand.image.height), none, ofInt 0, ofInt 0⟩, wand)
      else
        let width := ofInt wand.image.width * height / ofInt wand.image.height
        resized magick wand width height ⟨true, some width, some height, none, ofInt 0, ofInt 0⟩ := by
  simp only [thumbnail4LargeImgs, size, Exec.bind_run, Exec.get_run, Exec.pure_run]
  split
  · rfl
  · exact resized_run ..

def box (cwidth cheight width height : α) : α × α :=
  if lt (height / cheight) (width / cwidth) then (cwidth * (height / cheight), height)
  else (width, cheight * (width / cwidth))

/-- The scaled picture in the middle of the canvas. -/
def placed (width height : α) : Except LuaError (Report α) × Wand :=
  let x := (width - ofInt wand.image.width) / ofInt 2
  let y := (height - ofInt wand.image.height) / ofInt 2
  (.ok ⟨true, some (ofInt wand.image.width), some (ofInt wand.image.height), none, x, y⟩,
    if !eq (ofInt wand.image.width) width || !eq (ofInt wand.image.height) height then
      (extent magick width height x y wand).2
    else wand)

theorem box_run (width height : α) :
    thumbnail4LargeImgs magick (some width) (some height) wand =
      let (mwidth, mheight) := box (ofInt wand.image.width) (ofInt wand.image.height) width height
      match magick.resizeImage (wand.image.width, wand.image.height) (toInt mwidth) (toInt mheight) with
      | none => (.error (.thrown (Image.magickName ++ bytes ": error resizing image")),
          wand.asked wand.image (toInt mwidth) (toInt mheight))
      | some (rwidth, rheight) =>
        (wand.asked (wand.image.scaled rwidth rheight) (toInt mwidth) (toInt mheight)).placed magick width height := by
  simp only [thumbnail4LargeImgs, size, Exec.bind_run, Exec.get_run, Exec.pure_run, box]
  generalize (if lt (height / ofInt wand.image.height) (width / ofInt wand.image.width) = true then _
    else _ : α × α) = scaled
  obtain ⟨mwidth, mheight⟩ := scaled
  have same : setSize magick (some mwidth) (some mheight) wand = resize magick mwidth mheight wand := rfl
  rw [same, resize_run]
  cases magick.resizeImage (wand.image.width, wand.image.height) (toInt mwidth) (toInt mheight) with
  | none => rfl
  | some made =>
    simp only [placed]
    split <;> rfl

variable {magick wand} in
theorem box_done {width height mwidth mheight : α} {rwidth rheight : ℤ}
    (chosen : box (ofInt wand.image.width) (ofInt wand.image.height) width height = (mwidth, mheight))
    (made : magick.resizeImage (wand.image.width, wand.image.height) (toInt mwidth) (toInt mheight) =
      some (rwidth, rheight)) :
    thumbnail4LargeImgs magick (some width) (some height) wand =
      (wand.asked (wand.image.scaled rwidth rheight) (toInt mwidth) (toInt mheight)).placed magick width height := by
  rw [box_run, chosen]
  simp only [made]

theorem placed_resizes (width height : α) : (placed magick wand width height).2.resizes = wand.resizes := by
  unfold placed extent
  simp only [Exec.modify_run]
  split
  · split <;> rfl
  · rfl

theorem box_resizes (width height : α) :
    let size := box (ofInt wand.image.width) (ofInt wand.image.height) width height
    (thumbnail4LargeImgs magick (some width) (some height) wand).2.resizes =
      wand.resizes ++ [(toInt size.1, toInt size.2)] := by
  rw [box_run]
  dsimp only
  split
  · rfl
  · exact placed_resizes ..

end

/-- The outcome of a run as `Image` has it. -/
def outcome : Except LuaError (Report Number) × Wand → Except LuaError (Placement × Image)
  | (.ok report, wand) => .ok (report.placement, wand.image)
  | (.error raised, _) => .error raised

theorem zero_double : (ofInt 0 : Number) = 0 := by decide +kernel

theorem two_double : (ofInt 2 : Number) = 2 := by decide +kernel

theorem setSize_doubles (magick : Magick) (image : Image) (width height : Number) :
    image.setSize magick (some width) (some height) =
      match magick.resizeImage (image.width, image.height) (toInt width) (toInt height) with
      | none => .error (.thrown (Image.magickName ++ bytes ": error resizing image"))
      | some (rwidth, rheight) => .ok (image.scaled rwidth rheight) := rfl

theorem resized_doubles (magick : Magick) (wand : Wand) (width height : Number) (report : Report Number) :
    outcome (resized magick wand width height report) =
      (wand.image.setSize magick (some width) (some height)).map fun image => (report.placement, image) := by
  rw [setSize_doubles, resized]
  cases magick.resizeImage (wand.image.width, wand.image.height) (toInt width) (toInt height) <;> rfl

theorem placed_doubles (magick : Magick) (wand : Wand) (width height : Number) :
    let x := (width - .ofInt wand.image.width) / 2
    let y := (height - .ofInt wand.image.height) / 2
    outcome (wand.placed magick width height) =
      .ok (⟨true, some (.ofInt wand.image.width), some (.ofInt wand.image.height), none, x, y⟩,
        if !Number.eq (.ofInt wand.image.width) width || !Number.eq (.ofInt wand.image.height) height then
          wand.image.extent magick width height x y
        else wand.image) := by
  intro x y
  have drawn : (extent magick width height x y wand).2.image = wand.image.extent magick width height x y := by
    simp only [extent, Exec.modify_run, Image.extent]
    change Wand.image (if magick.extentImage width.toInt height.toInt x.toInt y.toInt = true then _ else _) = _
    split <;> rfl
  simp only [placed, two_double, outcome]
  rw [← drawn]
  change Except.ok (_, Wand.image (if _ then _ else _)) = _
  rw [apply_ite Wand.image]
  rfl

/-- Over doubles the scaling is that of `Image`. -/
theorem thumbnail4LargeImgs_doubles (magick : Magick) (wand : Wand) (width height : Option Number) :
    outcome (thumbnail4LargeImgs magick width height wand) = wand.image.thumbnail4LargeImgs magick width height := by
  cases width with
  | none =>
    cases height with
    | none => rfl
    | some height =>
      rw [height_run]
      simp only [Image.thumbnail4LargeImgs]
      change outcome (if Number.lt (.ofInt wand.image.height) (height * .nearest (11 / 10)) = true then _ else _) =
        if Number.lt (.ofInt wand.image.height) (height * .nearest (11 / 10)) = true then _ else _
      split
      · rw [zero_double]
        rfl
      · rw [zero_double, resized_doubles]
        rfl
  | some width =>
    cases height with
    | none =>
      rw [width_run]
      simp only [Image.thumbnail4LargeImgs]
      change outcome (if Number.lt (.ofInt wand.image.width) (width * .nearest (11 / 10)) = true then _ else _) =
        if Number.lt (.ofInt wand.image.width) (width * .nearest (11 / 10)) = true then _ else _
      split
      · rw [zero_double]
        rfl
      · rw [zero_double, resized_doubles]
        rfl
    | some height =>
      have centred (mwidth mheight : Number) :
          outcome (match magick.resizeImage (wand.image.width, wand.image.height) (toInt mwidth) (toInt mheight) with
            | none => (.error (.thrown (Image.magickName ++ bytes ": error resizing image")),
                wand.asked wand.image (toInt mwidth) (toInt mheight))
            | some (rwidth, rheight) =>
              (wand.asked (wand.image.scaled rwidth rheight) (toInt mwidth) (toInt mheight)).placed magick width height) =
            (wand.image.setSize magick (some mwidth) (some mheight)).bind fun image =>
              let x := (width - .ofInt image.width) / 2
              let y := (height - .ofInt image.height) / 2
              .ok (⟨true, some (.ofInt image.width), some (.ofInt image.height), none, x, y⟩,
                if !Number.eq (.ofInt image.width) width || !Number.eq (.ofInt image.height) height then
                  image.extent magick width height x y
                else image) := by
        rw [setSize_doubles]
        cases magick.resizeImage (wand.image.width, wand.image.height) (toInt mwidth) (toInt mheight) with
        | none => rfl
        | some size => exact placed_doubles ..
      rw [box_run]
      simp only [Image.thumbnail4LargeImgs, Image.size]
      by_cases wide : Number.lt (height / .ofInt wand.image.height) (width / .ofInt wand.image.width) = true
      · have chosen : box (ofInt wand.image.width) (ofInt wand.image.height) width height =
          (Number.ofInt wand.image.width * (height / Number.ofInt wand.image.height), height) := if_pos wide
        simp only [chosen, wide, if_true]
        exact centred ..
      · have chosen : box (ofInt wand.image.width) (ofInt wand.image.height) width height =
          (width, Number.ofInt wand.image.height * (width / Number.ofInt wand.image.width)) := if_neg wide
        simp only [chosen, wide, Bool.false_eq_true, if_false]
        exact centred ..

end Wand
end ImageServer
