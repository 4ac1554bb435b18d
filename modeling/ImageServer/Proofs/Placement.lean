import ImageServer.Proofs.Watermark
import ImageServer.Proofs.Scaling
import ImageServer.Proofs.Rounding
import ImageServer.Proofs.CacheKey

/-! The record that `thumbnail4LargeImgs` returns, beside the picture that is really there. -/

namespace ImageServer

namespace Number

def Near (reported : Option Number) (actual : ℤ) : Prop :=
  ∃ value, reported = some (.fin value) ∧ |value - actual| < 1

theorem near_ofInt (value : ℤ) : Near (some (.ofInt value)) value := ⟨value, rfl, by simp⟩

theorem near_truncate (value : ℚ) : Near (some (.fin value)) (truncate value) := ⟨value, rfl, truncate_near value⟩

/-- What is not finite is converted to a negative integer. -/
theorem finite_of_toInt {number : Number} (positive : 1 ≤ number.toInt) : ∃ value, number = .fin value ∧ 1 ≤ value := by
  cases number with
  | fin value => exact ⟨value, rfl, one_le_truncate_iff.mp positive⟩
  | inf negative => simp [toInt] at positive
  | nan => simp [toInt] at positive

theorem near_toInt {number : Number} (positive : 1 ≤ number.toInt) : Near (some number) number.toInt := by
  obtain ⟨value, rfl, -⟩ := finite_of_toInt positive
  exact near_truncate value

/-- Neither a NaN nor negative. -/
def Plain (number : Number) : Prop := number = .inf false ∨ ∃ value, number = .fin value ∧ 0 ≤ value ∧ Double value

theorem nearest_plain {value : ℚ} (nonneg : 0 ≤ value) : Plain (nearest value) := by
  have rounded : 0 ≤ (roundHalfEven (value / spacing value) : ℚ) * spacing value := by
    have quotient : 0 ≤ value / spacing value := div_nonneg nonneg (le_of_lt (spacing_pos value))
    have near := (abs_le.mp (roundHalfEven_near (value / spacing value))).1
    have whole : ((-1 : ℤ) : ℚ) < roundHalfEven (value / spacing value) := by
      push_cast
      linarith
    have nonneg : 0 ≤ roundHalfEven (value / spacing value) := by
      have := Int.cast_lt.mp whole
      omega
    exact mul_nonneg (by exact_mod_cast nonneg) (le_of_lt (spacing_pos value))
  cases done : nearest value with
  | fin result =>
    refine Or.inr ⟨result, rfl, ?_, double_nearest done⟩
    simp only [nearest] at done
    split at done
    next => exact Number.fin.inj done ▸ rounded
    next => cases done
  | inf negative =>
    simp only [nearest] at done
    split at done
    next => cases done
    next =>
      rw [← done, decide_eq_false (not_lt.mpr rounded)]
      exact Or.inl rfl
  | nan =>
    simp only [nearest] at done
    split at done <;> cases done

theorem mul_double {a b : Number} {product : ℚ} (done : a * b = .fin product) : Double product := by
  cases a with
  | fin a =>
    cases b with
    | fin b => exact double_nearest done
    | inf s => by_cases zero : a = 0 <;> simp [HMul.hMul, Mul.mul, mul, zero] at done
    | nan => cases done
  | inf s =>
    cases b with
    | fin b => by_cases zero : b = 0 <;> simp [HMul.hMul, Mul.mul, mul, zero] at done
    | inf t => cases done
    | nan => cases done
  | nan => cases b <;> cases done

theorem quotient_plain {side : Number} (plain : Plain side) {c : ℤ} (positive : 1 ≤ c) : Plain (side / .ofInt c) := by
  have nonzero : (c : ℚ) ≠ 0 := by exact_mod_cast (show c ≠ 0 by omega)
  have least : (0 : ℚ) < c := by exact_mod_cast positive
  rcases plain with rfl | ⟨value, rfl, nonneg, -⟩
  · refine Or.inl ?_
    change Number.inf (false != decide ((c : ℚ) < 0)) = _
    rw [decide_eq_false (by linarith)]
    rfl
  · change Plain (if (c : ℚ) = 0 then _ else nearest (value / c))
    rw [if_neg nonzero]
    exact nearest_plain (div_nonneg nonneg (le_of_lt least))

theorem nearest_zero : nearest 0 = .fin 0 := by decide +kernel

theorem zero_quotient {c : ℤ} (positive : 1 ≤ c) : (.fin 0 : Number) / .ofInt c = .fin 0 := by
  have nonzero : (c : ℚ) ≠ 0 := by exact_mod_cast (show c ≠ 0 by omega)
  change (if (c : ℚ) = 0 then _ else nearest (0 / c)) = _
  rw [if_neg nonzero, zero_div, nearest_zero]

theorem not_lt_zero {number : Number} (plain : Plain number) : lt number (.fin 0) = false := by
  rcases plain with rfl | ⟨value, rfl, nonneg, -⟩
  · rfl
  · exact decide_eq_false (not_lt.mpr nonneg)

theorem eq_zero_of_not_lt {number : Number} (plain : Plain number) (low : lt (.fin 0) number ≠ true) : number = .fin 0 := by
  rcases plain with rfl | ⟨value, rfl, nonneg, -⟩
  · exact absurd rfl low
  · have small : ¬ 0 < value := fun positive => low (decide_eq_true positive)
    rw [le_antisymm (not_lt.mp small) nonneg]

theorem largest_lt : (2 : ℚ) ^ 1024 - 2 ^ 971 < 2 ^ 1024 - 2 ^ 970 := by
  have half : (0 : ℚ) < 2 ^ 970 := by positivity
  rw [top_step, top_power]
  generalize (2 : ℚ) ^ 970 = half at *
  linarith

theorem half_difference {value size : ℚ} (double : Double value) (nonneg : 0 ≤ value) (double' : Double size)
    (least : 1 ≤ size) : ∃ half, ((.fin value : Number) - .ofInt (truncate size)) / 2 = .fin half := by
  have cut : truncate size = ⌊size⌋ := truncate_of_nonneg (by linarith)
  have below := Int.floor_le size
  have positive : (0 : ℚ) ≤ (⌊size⌋ : ℤ) := by exact_mod_cast Int.floor_nonneg.mpr (show 0 ≤ size by linarith)
  have most := (abs_le.mp double.le).2
  have most' := (abs_le.mp double'.le).2
  have difference : |value + -((truncate size : ℤ) : ℚ)| < 2 ^ 1024 - 2 ^ 970 := by
    refine lt_of_le_of_lt ?_ largest_lt
    rw [cut, abs_le]
    generalize (2 : ℚ) ^ 1024 - 2 ^ 971 = largest at *
    constructor <;> linarith
  obtain ⟨rounded, done⟩ := nearest_finite difference
  have halved : |rounded / 2| < 2 ^ 1024 - 2 ^ 970 := by
    refine lt_of_le_of_lt ?_ largest_lt
    refine le_trans ?_ (double_nearest done).le
    rw [abs_div]
    exact div_le_self (abs_nonneg _) (by norm_num)
  obtain ⟨half, done'⟩ := nearest_finite halved
  refine ⟨half, ?_⟩
  have first : (.fin value : Number) - .ofInt (truncate size) = .fin rounded := done
  have divided : (.fin rounded : Number) / 2 = if ((2 : ℕ) : ℚ) = 0 then (if rounded = 0 then .nan
      else .inf (decide (rounded < 0))) else nearest (rounded / ((2 : ℕ) : ℚ)) := rfl
  rw [first, divided, if_neg (by norm_num), Nat.cast_ofNat, done']

theorem near_half_difference {value size : ℚ} (double : Double value) (nonneg : 0 ≤ value) (double' : Double size)
    (least : 1 ≤ size) :
    Near (some (((.fin value : Number) - .ofInt (truncate size)) / 2))
      (((.fin value : Number) - .ofInt (truncate size)) / 2).toInt := by
  obtain ⟨half, done⟩ := half_difference double nonneg double' least
  rw [done]
  exact near_truncate half

theorem no_difference (value : ℤ) : ((.ofInt value : Number) - .ofInt value) / 2 = .ofInt 0 := by
  have zero : (.ofInt value : Number) - .ofInt value = .fin 0 := by
    change nearest ((value : ℚ) + -value) = _
    rw [add_neg_cancel, nearest_zero]
  rw [zero, ofInt, Int.cast_zero]
  decide +kernel

theorem eq_of_eq {a b : Number} (same : Number.eq a b = true) : a = b := by
  unfold Number.eq at same
  rw [Bool.and_eq_true, beq_iff_eq] at same
  exact same.1

theorem infinite_difference (value : ℤ) : ∃ negative, ((.inf false : Number) - .ofInt value) / 2 = .inf negative :=
  ⟨_, rfl⟩

end Number

namespace Wand
open Number

variable {cwidth cheight : ℤ} {width height mwidth mheight : Number}

/-- A scaled size with a pixel each way comes from sides that are not zero. -/
theorem box_nonzero (wide : 1 ≤ cwidth) (high : 1 ≤ cheight) (plain : Plain width) (plain' : Plain height)
    (chosen : box (.ofInt cwidth) (.ofInt cheight) width height = (mwidth, mheight)) (pixel : 1 ≤ mwidth.toInt)
    (pixel' : 1 ≤ mheight.toInt) : width ≠ .fin 0 ∧ height ≠ .fin 0 := by
  have none : ¬ 1 ≤ toInt (.fin 0) := by decide +kernel
  unfold box at chosen
  split at chosen
  next tall =>
    obtain ⟨-, rfl⟩ := Prod.mk.inj chosen
    refine ⟨?_, ?_⟩
    · rintro rfl
      rw [zero_quotient wide] at tall
      have low := not_lt_zero (quotient_plain plain' high)
      exact Bool.false_ne_true (low.symm.trans tall)
    · rintro rfl
      exact none pixel'
  next flat =>
    obtain ⟨rfl, rfl⟩ := Prod.mk.inj chosen
    refine ⟨?_, ?_⟩
    · rintro rfl
      exact none pixel
    · rintro rfl
      rw [zero_quotient high] at flat
      rw [eq_zero_of_not_lt (quotient_plain plain wide) flat] at pixel'
      have product : (.ofInt cheight : Number) * .fin 0 = .fin 0 := by
        change nearest ((cheight : ℚ) * 0) = _
        rw [mul_zero, nearest_zero]
      rw [product] at pixel'
      exact none pixel'

theorem box_double (plain : Plain width) (plain' : Plain height)
    (chosen : box (.ofInt cwidth) (.ofInt cheight) width height = (mwidth, mheight)) :
    (∀ value, mwidth = .fin value → Double value) ∧ (∀ value, mheight = .fin value → Double value) := by
  have given {side : Number} (plain : Plain side) : ∀ value, side = .fin value → Double value := by
    rintro value rfl
    rcases plain with huge | ⟨other, shape, -, double⟩
    · cases huge
    · cases shape
      exact double
  unfold box at chosen
  split at chosen
  · obtain ⟨rfl, rfl⟩ := Prod.mk.inj chosen
    exact ⟨fun _ done => mul_double done, given plain'⟩
  · obtain ⟨rfl, rfl⟩ := Prod.mk.inj chosen
    exact ⟨given plain, fun _ done => mul_double done⟩

end Wand
/-- A resize that succeeds makes the size it was asked for, which has a pixel; so does every such canvas. -/
structure Magick.Sizing (magick : Magick) : Prop where
  resizes : ∀ {size width height made}, magick.resizeImage size width height = some made →
    made = (width, height) ∧ 1 ≤ width ∧ 1 ≤ height
  canvases : ∀ width height left top, 1 ≤ width → 1 ≤ height → magick.extentImage width height left top = true

/-- The record has four numbers, each within a pixel of the picture. -/
structure Accurate (placement : Placement) (image : Image) : Prop where
  rwidth : Number.Near placement.rwidth image.rwidth
  rheight : Number.Near placement.rheight image.rheight
  x : Number.Near (some placement.x) image.left
  y : Number.Near (some placement.y) image.top

/-- A side that a request can ask for. -/
def Askable (side : Number) : Prop :=
  side = .inf false ∨ ∃ whole : ℤ, side = .fin whole ∧ 0 ≤ whole ∧ Number.Double whole

theorem Askable.plain {side : Number} (askable : Askable side) : side.Plain := by
  rcases askable with huge | ⟨whole, finite, nonneg, double⟩
  · exact Or.inl huge
  · exact Or.inr ⟨whole, finite, by exact_mod_cast nonneg, double⟩

theorem askable_of_text {text : Bytes} (size : IsSize text) {side : Number}
    (read : ImageProcessor.sizeNumber text = some side) : Askable side := by
  rw [sizeNumber_eq size] at read
  split at read
  next => cases read
  next =>
    have natural : side = .nearest ((decimal text : ℤ) : ℚ) := by
      rw [Int.cast_natCast]
      exact (Option.some.inj read).symm
    have least : (0 : ℚ) ≤ ((decimal text : ℤ) : ℚ) := by positivity
    rcases Number.nearest_plain least with huge | ⟨value, finite, nonneg, double⟩
    · exact Or.inl (natural.trans huge)
    · obtain ⟨whole, rfl⟩ := Number.nearest_int finite
      exact Or.inr ⟨whole, natural.trans finite, by exact_mod_cast nonneg, double⟩

theorem kept_accurate {magick : Magick} {path : Bytes} {image : Image}
    (loaded : Image.load magick path = .ok image) (result : Bool) (rheiht : Option Number) :
    Accurate ⟨result, some (.ofInt image.width), some (.ofInt image.height), rheiht, .ofInt 0, .ofInt 0⟩ image := by
  unfold Image.load at loaded
  split at loaded
  next => cases loaded
  next width height read =>
    obtain rfl := Except.ok.inj loaded
    exact ⟨Number.near_ofInt _, Number.near_ofInt _, Number.near_ofInt 0, Number.near_ofInt 0⟩

section
variable {magick : Magick} (sizing : magick.Sizing) {image : Image} {placement : Placement} {after : Image}
include sizing

theorem box_outcome {width height : Number}
    (done : image.thumbnail4LargeImgs magick (some width) (some height) = .ok (placement, after)) :
    ∃ mwidth mheight wand, Wand.box (.ofInt image.width) (.ofInt image.height) width height = (mwidth, mheight) ∧
      1 ≤ mwidth.toInt ∧ 1 ≤ mheight.toInt ∧ wand.image = image.scaled mwidth.toInt mheight.toInt ∧
      Wand.outcome (Wand.placed magick wand width height) = .ok (placement, after) := by
  rw [← Wand.thumbnail4LargeImgs_doubles magick ⟨image, []⟩, Wand.box_run] at done
  cases chosen : Wand.box (Arithmetic.ofInt image.width : Number) (Arithmetic.ofInt image.height) width height with
  | mk mwidth mheight =>
    rw [chosen] at done
    dsimp only at done
    split at done
    next => cases done
    next rwidth rheight made =>
      obtain ⟨same, pixel, pixel'⟩ := sizing.resizes made
      obtain ⟨rfl, rfl⟩ := Prod.mk.inj same
      exact ⟨mwidth, mheight, _, rfl, pixel, pixel', rfl, done⟩

theorem box_accurate_iff (wide : 1 ≤ image.width) (high : 1 ≤ image.height) {width height : Number}
    (askable : Askable width) (askable' : Askable height)
    (done : image.thumbnail4LargeImgs magick (some width) (some height) = .ok (placement, after)) :
    Accurate placement after ↔ width ≠ .inf false ∧ height ≠ .inf false := by
  obtain ⟨mwidth, mheight, wand, chosen, pixel, pixel', drawn, outcome⟩ := box_outcome sizing done
  rw [Wand.placed_doubles, drawn] at outcome
  obtain ⟨rfl, rfl⟩ := Prod.mk.inj (Except.ok.inj outcome)
  constructor
  · intro accurate
    refine ⟨?_, ?_⟩
    · rintro rfl
      obtain ⟨value, finite, -⟩ := accurate.x
      obtain ⟨negative, infinite⟩ := Number.infinite_difference (image.scaled mwidth.toInt mheight.toInt).width
      cases infinite.symm.trans (Option.some.inj finite)
    · rintro rfl
      obtain ⟨value, finite, -⟩ := accurate.y
      obtain ⟨negative, infinite⟩ := Number.infinite_difference (image.scaled mwidth.toInt mheight.toInt).height
      cases infinite.symm.trans (Option.some.inj finite)
  · intro finite
    obtain ⟨nonzero, nonzero'⟩ := Wand.box_nonzero wide high askable.plain askable'.plain chosen pixel pixel'
    obtain ⟨double, double'⟩ := Wand.box_double askable.plain askable'.plain chosen
    obtain ⟨size, rfl, least⟩ := Number.finite_of_toInt pixel
    obtain ⟨size', rfl, least'⟩ := Number.finite_of_toInt pixel'
    obtain ⟨whole, rfl, nonneg, doubleWidth⟩ := askable.resolve_left finite.1
    obtain ⟨whole', rfl, nonneg', doubleHeight⟩ := askable'.resolve_left finite.2
    have across := Number.near_half_difference doubleWidth (by exact_mod_cast nonneg) (double size rfl) least
    have down := Number.near_half_difference doubleHeight (by exact_mod_cast nonneg') (double' size' rfl) least'
    have some_pixel {side : ℤ} (nonneg : 0 ≤ side) (nonzero : Number.fin side ≠ .fin 0) : 1 ≤ (Number.fin side).toInt := by
      have other : side ≠ 0 := by
        rintro rfl
        exact nonzero (by rw [Int.cast_zero])
      rw [toInt_fin, truncate_int]
      omega
    split
    next =>
      unfold Image.extent
      rw [sizing.canvases _ _ _ _ (some_pixel nonneg nonzero) (some_pixel nonneg' nonzero'), if_pos rfl]
      refine ⟨Number.near_ofInt _, Number.near_ofInt _, ?_, ?_⟩
      · rw [← zero_add (Number.toInt _)] at across
        exact across
      · rw [← zero_add (Number.toInt _)] at down
        exact down
    next same =>
      simp only [Bool.or_eq_true, Bool.not_eq_true', not_or, Bool.not_eq_false] at same
      rw [← Number.eq_of_eq same.1, ← Number.eq_of_eq same.2, Number.no_difference, Number.no_difference]
      exact ⟨Number.near_ofInt _, Number.near_ofInt _, Number.near_ofInt 0, Number.near_ofInt 0⟩

/-- With one side the sizes that are reported are those that were asked of the library. -/
theorem resized_accurate {width height : Number} {result : Bool} {rheiht : Option Number}
    (done : Wand.outcome (Wand.resized magick ⟨image, []⟩ width height
      ⟨result, some width, some height, rheiht, .ofInt 0, .ofInt 0⟩) = .ok (placement, after)) :
    Accurate placement after := by
  unfold Wand.resized at done
  split at done
  next => cases done
  next rwidth rheight made =>
    obtain ⟨same, pixel, pixel'⟩ := sizing.resizes made
    obtain ⟨rfl, rfl⟩ := Prod.mk.inj same
    obtain ⟨rfl, rfl⟩ := Prod.mk.inj (Except.ok.inj done)
    exact ⟨Number.near_toInt pixel, Number.near_toInt pixel', Number.near_ofInt 0, Number.near_ofInt 0⟩

end

/-- A library that refuses a size without a pixel. -/
def Magick.demanding (width height : ℤ) : Magick :=
  { obliging width height with
    resizeImage := fun _ width height => if 1 ≤ width ∧ 1 ≤ height then some (width, height) else none
    extentImage := fun width height _ _ => decide (1 ≤ width ∧ 1 ≤ height) }

theorem Magick.demanding_sizing (width height : ℤ) : (demanding width height).Sizing where
  resizes := by
    intro size width height made resized
    simp only [demanding] at resized
    split at resized
    next pixel => exact ⟨(Option.some.inj resized).symm, pixel⟩
    next => cases resized
  canvases width height _ _ pixel pixel' := decide_eq_true ⟨pixel, pixel'⟩

/-- A run that scales the source of a request, with what it returns. -/
def runOf (magick : Magick) (path : Bytes) : Option (ThumbInfo × Image × Placement × Image) :=
  (Thumbnail.processor.extractThumbInfo (fun _ => none) path).bind fun info =>
    match Image.load magick info.sourceImageName with
    | .error _ => none
    | .ok image =>
      match image.thumbnail4LargeImgs magick info.width info.height with
      | .error _ => none
      | .ok (placement, after) => some (info, image, placement, after)

theorem runOf_some {magick : Magick} {path : Bytes} {info : ThumbInfo} {image : Image} {placement : Placement}
    {after : Image} (run : runOf magick path = some (info, image, placement, after)) :
    Thumbnail.processor.extractThumbInfo (fun _ => none) path = some info ∧
      Image.load magick info.sourceImageName = .ok image ∧
      image.thumbnail4LargeImgs magick info.width info.height = .ok (placement, after) := by
  unfold runOf at run
  obtain ⟨info', accepted, rest⟩ := Option.bind_eq_some_iff.mp run
  split at rest
  next => cases rest
  next image' loaded =>
    split at rest
    next => cases rest
    next placement' after' done =>
      cases rest
      exact ⟨accepted, loaded, done⟩

end ImageServer
