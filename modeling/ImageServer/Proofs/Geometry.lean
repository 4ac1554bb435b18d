import ImageServer.Proofs.Scaling

/-! The geometry of `thumbnail4LargeImgs` in exact arithmetic: the scaled picture in the middle of its
canvas, and the sizes without a pixel that are asked of the library for a picture that is too long. -/

namespace ImageServer
open Arithmetic

/-- The largest picture with the aspect of another that fits in a box. -/
def fitScale (cwidth cheight width height : ℚ) : ℚ := min (width / cwidth) (height / cheight)

variable {cwidth cheight width height : ℚ}

theorem box_exact (wide : 0 < cwidth) (high : 0 < cheight) : Wand.box cwidth cheight width height =
    (fitScale cwidth cheight width height * cwidth, fitScale cwidth cheight width height * cheight) := by
  have across : width / cwidth * cwidth = width := div_mul_cancel₀ _ (ne_of_gt wide)
  have down : height / cheight * cheight = height := div_mul_cancel₀ _ (ne_of_gt high)
  unfold Wand.box fitScale
  split
  next tall =>
    have order : height / cheight < width / cwidth := of_decide_eq_true tall
    rw [min_eq_right (le_of_lt order), down, mul_comm]
  next flat =>
    have order : width / cwidth ≤ height / cheight := not_lt.mp fun tall => flat (decide_eq_true tall)
    rw [min_eq_left order, across, mul_comm cheight]

theorem fit_width (wide : 0 < cwidth) :
    fitScale cwidth cheight width height * cwidth = min width (height * cwidth / cheight) := by
  rw [fitScale, min_mul_of_nonneg _ _ (le_of_lt wide), div_mul_cancel₀ _ (ne_of_gt wide), div_mul_eq_mul_div]

theorem fit_height (high : 0 < cheight) :
    fitScale cwidth cheight width height * cheight = min (width * cheight / cwidth) height := by
  rw [fitScale, min_mul_of_nonneg _ _ (le_of_lt high), div_mul_cancel₀ _ (ne_of_gt high), div_mul_eq_mul_div]

theorem hardly_more_iff (side : ℤ) (asked : ℚ) :
    lt (ofInt side : ℚ) (asked * ofRat (11 / 10)) = true ↔ 10 * (side : ℚ) < 11 * asked := by
  change decide ((side : ℚ) < asked * (11 / 10)) = true ↔ _
  rw [decide_eq_true_iff]
  constructor
  · intro less
    linarith
  · intro less
    linarith

/-- No side of the picture is so much longer than the other that the other has no pixel. -/
def Proportionate (cwidth cheight : ℤ) : Option ℚ → Option ℚ → Prop
  | some width, some height => cheight ≤ cwidth * height ∧ cwidth ≤ cheight * width
  | some width, none => 10 * cwidth < 11 * width ∨ cwidth ≤ cheight * width
  | none, some height => 10 * cheight < 11 * height ∨ cheight ≤ cwidth * height
  | none, none => True

/-- Every size that the library is asked for has a pixel exactly when the picture is not too long
for the sides that are asked for. -/
theorem resizes_visible_iff (magick : Magick) {image : Image} (wide : 1 ≤ image.width) (high : 1 ≤ image.height)
    {width height : Option ℚ} (given : width.isSome ∨ height.isSome)
    (least : ∀ side, width = some side ∨ height = some side → 1 ≤ side) :
    (∀ size ∈ (Wand.thumbnail4LargeImgs magick width height ⟨image, []⟩).2.resizes, 1 ≤ size.1 ∧ 1 ≤ size.2) ↔
      Proportionate image.width image.height width height := by
  have across : (0 : ℚ) < image.width := by exact_mod_cast wide
  have down : (0 : ℚ) < image.height := by exact_mod_cast high
  cases width with
  | none =>
    cases height with
    | none => simp at given
    | some height =>
      have leastHeight := least height (Or.inr rfl)
      rw [Wand.height_run]
      by_cases low : lt (ofInt image.height : ℚ) (height * ofRat (11 / 10)) = true
      · rw [if_pos low]
        exact iff_of_true (by simp) (Or.inl ((hardly_more_iff ..).mp low))
      · have tall := (not_congr (hardly_more_iff ..)).mp low
        rw [if_neg low]
        simp only [Wand.resized_resizes, List.nil_append, List.mem_singleton, forall_eq]
        change 1 ≤ truncate (image.width * height / image.height) ∧ 1 ≤ truncate height ↔ _
        rw [one_le_truncate_iff, one_le_truncate_iff, one_le_div down]
        simp only [leastHeight, and_true, Proportionate, tall, false_or]
  | some width =>
    have leastWidth := least width (Or.inl rfl)
    cases height with
    | none =>
      rw [Wand.width_run]
      by_cases narrow : lt (ofInt image.width : ℚ) (width * ofRat (11 / 10)) = true
      · rw [if_pos narrow]
        exact iff_of_true (by simp) (Or.inl ((hardly_more_iff ..).mp narrow))
      · have broad := (not_congr (hardly_more_iff ..)).mp narrow
        rw [if_neg narrow]
        simp only [Wand.resized_resizes, List.nil_append, List.mem_singleton, forall_eq]
        change 1 ≤ truncate width ∧ 1 ≤ truncate (image.height * width / image.width) ↔ _
        rw [one_le_truncate_iff, one_le_truncate_iff, one_le_div across]
        simp only [leastWidth, true_and, Proportionate, broad, false_or]
    | some height =>
      have leastHeight := least height (Or.inr rfl)
      simp only [Wand.box_resizes, List.nil_append, List.mem_singleton, forall_eq]
      change 1 ≤ truncate (Wand.box (image.width : ℚ) image.height width height).1 ∧
        1 ≤ truncate (Wand.box (image.width : ℚ) image.height width height).2 ↔ _
      rw [box_exact across down, one_le_truncate_iff, one_le_truncate_iff, fit_width across, fit_height down,
        le_min_iff, le_min_iff, one_le_div down, one_le_div across]
      simp only [leastWidth, leastHeight, true_and, and_true, Proportionate, mul_comm]

theorem resizes_visible_600x400 :
    let image : Image := ⟨[], 1000, 800, 0, 0, 1000, 800, []⟩
    ∀ size ∈ (Wand.thumbnail4LargeImgs (.obliging 1000 800) (some (600 : ℚ)) (some 400) ⟨image, []⟩).2.resizes,
      1 ≤ size.1 ∧ 1 ≤ size.2 := by
  refine (resizes_visible_iff (.obliging 1000 800) (by decide) (by decide) (Or.inl rfl) ?_).mpr ?_
  · rintro side (same | same)
    · rw [← Option.some.inj same]
      norm_num
    · rw [← Option.some.inj same]
      norm_num
  · simp only [Proportionate]
    norm_num

/-- A permitted width of 480 for a picture of 1000 by 2: its height would be 0.96. -/
theorem flat_resize_invisible :
    let image : Image := ⟨[], 1000, 2, 0, 0, 1000, 2, []⟩
    let wand := (Wand.thumbnail4LargeImgs (.obliging 1000 2) (some (480 : ℚ)) none ⟨image, []⟩).2
    wand.resizes = [(480, 0)] ∧ ¬ ∀ size ∈ wand.resizes, 1 ≤ size.1 ∧ 1 ≤ size.2 := by
  decide +kernel

/-- The library makes every size that has a pixel, and every such canvas. Nothing is said of other sizes. -/
structure Magick.Exact (magick : Magick) : Prop where
  resizes : ∀ size width height, 1 ≤ width → 1 ≤ height → magick.resizeImage size width height = some (width, height)
  canvases : ∀ width height left top, 1 ≤ width → 1 ≤ height → magick.extentImage width height left top = true

theorem Magick.obliging_exact (width height : ℤ) : (obliging width height).Exact :=
  ⟨fun _ _ _ _ _ => rfl, fun _ _ _ _ _ _ => rfl⟩

/-- A scaled picture inside of its canvas, with equal margins to a pixel. -/
structure Centred (image : Image) (width height rwidth rheight : ℤ) : Prop where
  canvas : image.width = width ∧ image.height = height
  picture : image.rwidth = rwidth ∧ image.rheight = rheight
  across : 0 ≤ image.left ∧ image.left + rwidth ≤ width
  down : 0 ≤ image.top ∧ image.top + rheight ≤ height
  margins : |image.left - (width - (image.left + rwidth))| ≤ 1
  ends : |image.top - (height - (image.top + rheight))| ≤ 1

theorem half_margin {side picture : ℤ} (inside : picture ≤ side) :
    let margin := truncate (((side : ℚ) - picture) / 2)
    0 ≤ margin ∧ margin + picture ≤ side ∧ |margin - (side - (margin + picture))| ≤ 1 := by
  intro margin
  have difference : (0 : ℚ) ≤ (side - picture) / 2 := by
    have : (picture : ℚ) ≤ side := Int.cast_le.mpr inside
    linarith
  have floor : margin = ⌊((side : ℚ) - picture) / 2⌋ := truncate_of_nonneg difference
  have below := Int.floor_le (((side : ℚ) - picture) / 2)
  have above := Int.lt_floor_add_one (((side : ℚ) - picture) / 2)
  rw [← floor] at below above
  have least : 2 * margin ≤ side - picture := by
    have : (2 : ℚ) * margin ≤ side - picture := by linarith
    exact_mod_cast this
  have most : side - picture < 2 * margin + 2 := by
    have : (side : ℚ) - picture < 2 * margin + 2 := by linarith
    exact_mod_cast this
  have nonneg : 0 ≤ margin := floor ▸ Int.floor_nonneg.mpr difference
  rw [abs_le]
  omega

theorem extent_exact {magick : Magick} (exact : magick.Exact) (wand : Wand) {width height : ℤ} (pixel : 1 ≤ width)
    (pixel' : 1 ≤ height) (x y : ℚ) :
    (Wand.extent magick (width : ℚ) (height : ℚ) x y wand).2.image =
      { wand.image with
        width, height, left := wand.image.left + truncate x, top := wand.image.top + truncate y } := by
  simp only [Wand.extent, Exec.modify_run]
  change Wand.image (if magick.extentImage (truncate width) (truncate height) _ _ = true then
    { wand with image := { wand.image with width := truncate width, height := truncate height, left := _, top := _ } }
    else wand) = _
  rw [truncate_int, truncate_int, exact.canvases _ _ _ _ pixel pixel', if_pos rfl]
  rfl

theorem differs_iff (side asked side' asked' : ℤ) :
    (!eq (ofInt side : ℚ) (asked : ℚ) || !eq (ofInt side' : ℚ) (asked' : ℚ)) = true ↔
      ¬ (side = asked ∧ side' = asked') := by
  rw [not_and_or]
  simp [eq, ofInt]

theorem placed_centred {magick : Magick} (exact : magick.Exact) {wand : Wand} {width height : ℤ} (pixel : 1 ≤ width)
    (pixel' : 1 ≤ height) (corner : wand.image.left = 0 ∧ wand.image.top = 0)
    (whole : wand.image.rwidth = wand.image.width ∧ wand.image.rheight = wand.image.height)
    (inside : wand.image.width ≤ width) (inside' : wand.image.height ≤ height) :
    ∃ report after, wand.placed magick (width : ℚ) (height : ℚ) = (.ok report, after) ∧
      Centred after.image width height wand.image.width wand.image.height := by
  obtain ⟨nonneg, within, margin⟩ := half_margin inside
  obtain ⟨nonneg', within', margin'⟩ := half_margin inside'
  refine ⟨_, _, rfl, ?_⟩
  by_cases same : wand.image.width = width ∧ wand.image.height = height
  · rw [if_neg fun differs => (differs_iff ..).mp differs same]
    refine ⟨same, whole, ?_, ?_, ?_, ?_⟩
    all_goals simp [corner.1, corner.2, same.1, same.2]
  · rw [if_pos ((differs_iff ..).mpr same), extent_exact exact wand pixel pixel']
    have left : wand.image.left + truncate (((width : ℚ) - ofInt wand.image.width) / ofInt 2) =
        truncate ((width - wand.image.width) / 2) := by
      rw [corner.1, zero_add]
      rfl
    have top : wand.image.top + truncate (((height : ℚ) - ofInt wand.image.height) / ofInt 2) =
        truncate ((height - wand.image.height) / 2) := by
      rw [corner.2, zero_add]
      rfl
    rw [← left] at nonneg within margin
    rw [← top] at nonneg' within' margin'
    exact ⟨⟨rfl, rfl⟩, whole, ⟨nonneg, within⟩, ⟨nonneg', within'⟩, margin, margin'⟩

section
variable (magick : Magick) (image : Image)

/-- A box is filled in one direction by the picture rounded down, which is put in its middle. -/
def Boxed (width height : ℤ) : Prop :=
  let scale := fitScale image.width image.height width height
  let rwidth := ⌊scale * image.width⌋
  let rheight := ⌊scale * image.height⌋
  let (result, after) := Wand.thumbnail4LargeImgs magick (some (width : ℚ)) (some (height : ℚ)) ⟨image, []⟩
  after.resizes = [(rwidth, rheight)] ∧ rwidth ≤ width ∧ rheight ≤ height ∧ (rwidth = width ∨ rheight = height) ∧
    (1 ≤ rwidth → 1 ≤ rheight → (∃ report, result = .ok report) ∧ Centred after.image width height rwidth rheight)

/-- A width is kept or reached, and the height follows it rounded down. -/
def Widened (width : ℤ) : Prop :=
  let rheight := ⌊(image.height : ℚ) * width / image.width⌋
  let (result, after) := Wand.thumbnail4LargeImgs magick (some (width : ℚ)) none ⟨image, []⟩
  if (image.width : ℚ) < 11 / 10 * width then
    (∃ report, result = .ok report) ∧ after = ⟨image, []⟩
  else
    after.resizes = [(width, rheight)] ∧ width ≤ image.width ∧ rheight ≤ image.height ∧
      (1 ≤ width → 1 ≤ rheight → (∃ report, result = .ok report) ∧ after.image = image.scaled width rheight)

def Heightened (height : ℤ) : Prop :=
  let rwidth := ⌊(image.width : ℚ) * height / image.height⌋
  let (result, after) := Wand.thumbnail4LargeImgs magick none (some (height : ℚ)) ⟨image, []⟩
  if (image.height : ℚ) < 11 / 10 * height then
    (∃ report, result = .ok report) ∧ after = ⟨image, []⟩
  else
    after.resizes = [(rwidth, height)] ∧ height ≤ image.height ∧ rwidth ≤ image.width ∧
      (1 ≤ rwidth → 1 ≤ height → (∃ report, result = .ok report) ∧ after.image = image.scaled rwidth height)

end

theorem following_side {side other asked : ℤ} (some : 1 ≤ side) (some' : 1 ≤ other) (nonneg : 0 ≤ asked)
    (large : ¬ (side : ℚ) < 11 / 10 * asked) :
    truncate ((other : ℚ) * asked / side) = ⌊(other : ℚ) * asked / side⌋ ∧ asked ≤ side ∧
      ⌊(other : ℚ) * asked / side⌋ ≤ other := by
  have side_pos : (0 : ℚ) < side := by exact_mod_cast some
  have other_pos : (0 : ℚ) < other := by exact_mod_cast some'
  have asked_nonneg : (0 : ℚ) ≤ asked := by exact_mod_cast nonneg
  have less : (asked : ℚ) ≤ side := by linarith
  refine ⟨truncate_of_nonneg (by positivity), by exact_mod_cast less, ?_⟩
  have ratio : (other : ℚ) * asked / side ≤ other := by
    rw [div_le_iff₀ side_pos]
    exact mul_le_mul_of_nonneg_left less (le_of_lt other_pos)
  exact Int.cast_le.mp (le_trans (Int.floor_le _) ratio)

theorem fit_floor {cwidth cheight width height : ℤ} (wide : 1 ≤ cwidth) (high : 1 ≤ cheight) (least : 1 ≤ width)
    (least' : 1 ≤ height) :
    let scale := fitScale cwidth cheight width height
    truncate (scale * cwidth) = ⌊scale * cwidth⌋ ∧ truncate (scale * cheight) = ⌊scale * cheight⌋ ∧
      ⌊scale * cwidth⌋ ≤ width ∧ ⌊scale * cheight⌋ ≤ height ∧ (⌊scale * cwidth⌋ = width ∨ ⌊scale * cheight⌋ = height) := by
  intro scale
  have across : (0 : ℚ) < cwidth := by exact_mod_cast wide
  have down : (0 : ℚ) < cheight := by exact_mod_cast high
  have widthPos : (0 : ℚ) < width := by exact_mod_cast least
  have heightPos : (0 : ℚ) < height := by exact_mod_cast least'
  have scalePos : 0 < scale := lt_min (by positivity) (by positivity)
  have within : scale * cwidth ≤ width := by
    rw [fit_width across]
    exact min_le_left _ _
  have within' : scale * cheight ≤ height := by
    rw [fit_height down]
    exact min_le_right _ _
  refine ⟨truncate_of_nonneg (by positivity), truncate_of_nonneg (by positivity),
    Int.cast_le.mp (le_trans (Int.floor_le _) within), Int.cast_le.mp (le_trans (Int.floor_le _) within'), ?_⟩
  rcases le_total ((width : ℚ) / cwidth) (height / cheight) with flat | tall
  · refine Or.inl ?_
    have same : scale = width / cwidth := min_eq_left flat
    rw [same, div_mul_cancel₀ _ (ne_of_gt across), Int.floor_intCast]
  · refine Or.inr ?_
    have same : scale = height / cheight := min_eq_right tall
    rw [same, div_mul_cancel₀ _ (ne_of_gt down), Int.floor_intCast]

theorem boxed {magick : Magick} (exact : magick.Exact) {image : Image} (wide : 1 ≤ image.width) (high : 1 ≤ image.height)
    {width height : ℤ} (least : 1 ≤ width) (least' : 1 ≤ height) : Boxed magick image width height := by
  have across : (0 : ℚ) < image.width := by exact_mod_cast wide
  have down : (0 : ℚ) < image.height := by exact_mod_cast high
  have chosen : Wand.box (image.width : ℚ) image.height width height = (_, _) := box_exact across down
  have log := Wand.box_resizes magick ⟨image, []⟩ (width : ℚ) (height : ℚ)
  change _ = [(truncate (Wand.box (image.width : ℚ) image.height width height).1,
    truncate (Wand.box (image.width : ℚ) image.height width height).2)] at log
  rw [chosen] at log
  obtain ⟨rounded, rounded', inside, inside', filled⟩ := fit_floor wide high least least'
  rw [rounded, rounded'] at log
  unfold Boxed
  dsimp only
  generalize ⌊fitScale image.width image.height width height * image.width⌋ = rwidth at *
  generalize ⌊fitScale image.width image.height width height * image.height⌋ = rheight at *
  refine ⟨log, inside, inside', filled, ?_⟩
  intro broad tall
  have made : magick.resizeImage (image.width, image.height)
      (truncate (fitScale image.width image.height width height * image.width))
      (truncate (fitScale image.width image.height width height * image.height)) = some (rwidth, rheight) := by
    rw [rounded, rounded']
    exact exact.resizes _ _ _ broad tall
  obtain ⟨report, after, done, centred⟩ :=
    @placed_centred magick exact (Wand.asked ⟨image, []⟩ (image.scaled rwidth rheight) (truncate _) (truncate _))
      width height least least' ⟨rfl, rfl⟩ ⟨rfl, rfl⟩ inside inside'
  rw [(@Wand.box_done ℚ _ magick ⟨image, []⟩ _ _ _ _ _ _ chosen made).trans done]
  exact ⟨⟨report, rfl⟩, centred⟩

theorem resized_exact {magick : Magick} (exact : magick.Exact) (image : Image) {width height : ℚ} {rwidth rheight : ℤ}
    (rounded : truncate width = rwidth) (rounded' : truncate height = rheight) (report : Report ℚ) :
    (Wand.resized magick ⟨image, []⟩ width height report).2.resizes = [(rwidth, rheight)] ∧
      (1 ≤ rwidth → 1 ≤ rheight →
        (∃ report', (Wand.resized magick ⟨image, []⟩ width height report).1 = .ok report') ∧
          (Wand.resized magick ⟨image, []⟩ width height report).2.image = image.scaled rwidth rheight) := by
  refine ⟨?_, ?_⟩
  · rw [Wand.resized_resizes]
    change [(truncate width, truncate height)] = _
    rw [rounded, rounded']
  · intro broad tall
    have made : magick.resizeImage (image.width, image.height) (truncate width) (truncate height) =
        some (rwidth, rheight) := by
      rw [rounded, rounded']
      exact exact.resizes _ _ _ broad tall
    rw [@Wand.resized_done ℚ _ magick ⟨image, []⟩ _ _ _ _ made]
    exact ⟨⟨report, rfl⟩, rfl⟩

theorem widened {magick : Magick} (exact : magick.Exact) {image : Image} (wide : 1 ≤ image.width) (high : 1 ≤ image.height)
    {width : ℤ} (nonneg : 0 ≤ width) : Widened magick image width := by
  have test := hardly_more_iff image.width (width : ℚ)
  have run := Wand.width_run magick ⟨image, []⟩ (width : ℚ)
  unfold Widened
  dsimp only
  by_cases narrow : (image.width : ℚ) < 11 / 10 * width
  · rw [if_pos (test.mpr (by linarith))] at run
    rw [run, if_pos narrow]
    exact ⟨⟨_, rfl⟩, rfl⟩
  · rw [if_neg fun less => narrow (by linarith [test.mp less])] at run
    obtain ⟨rounded, reached, follows⟩ := following_side wide high nonneg narrow
    rw [run, if_neg narrow]
    obtain ⟨log, done⟩ := resized_exact exact image (truncate_int width) rounded _
    exact ⟨log, reached, follows, done⟩

theorem heightened {magick : Magick} (exact : magick.Exact) {image : Image} (wide : 1 ≤ image.width)
    (high : 1 ≤ image.height) {height : ℤ} (nonneg : 0 ≤ height) : Heightened magick image height := by
  have test := hardly_more_iff image.height (height : ℚ)
  have run := Wand.height_run magick ⟨image, []⟩ (height : ℚ)
  unfold Heightened
  dsimp only
  by_cases low : (image.height : ℚ) < 11 / 10 * height
  · rw [if_pos (test.mpr (by linarith))] at run
    rw [run, if_pos low]
    exact ⟨⟨_, rfl⟩, rfl⟩
  · rw [if_neg fun less => low (by linarith [test.mp less])] at run
    obtain ⟨rounded, reached, follows⟩ := following_side high wide nonneg low
    rw [run, if_neg low]
    obtain ⟨log, done⟩ := resized_exact exact image rounded (truncate_int height) _
    exact ⟨log, reached, follows, done⟩

/-- What becomes of a picture of any size, whichever sides are asked for. -/
theorem thumbnail_geometry {magick : Magick} (exact : magick.Exact) {image : Image} (wide : 1 ≤ image.width)
    (high : 1 ≤ image.height) :
    (∀ width height : ℤ, 1 ≤ width → 1 ≤ height → Boxed magick image width height) ∧
      (∀ width : ℤ, 0 ≤ width → Widened magick image width) ∧
      (∀ height : ℤ, 0 ≤ height → Heightened magick image height) :=
  ⟨fun _ _ least least' => boxed exact wide high least least', fun _ nonneg => widened exact wide high nonneg,
    fun _ nonneg => heightened exact wide high nonneg⟩

theorem thumbnail_geometry_600x400 :
    Boxed (.obliging 1000 800) ⟨[], 1000, 800, 0, 0, 1000, 800, []⟩ 600 400 :=
  (thumbnail_geometry (Magick.obliging_exact 1000 800) (by decide) (by decide)).1 600 400 (by decide) (by decide)

end ImageServer
