import ImageServer.Number
import Mathlib.Tactic.Linarith
import Mathlib.Tactic.Positivity
import Mathlib.Tactic.NormNum
import Mathlib.Tactic.Zify
import Mathlib.Tactic.FieldSimp

/-! Rounding to doubles. A rounded number is a whole multiple of a power of two, with at most
53 bits, and such a multiple is rounded to itself. -/

namespace ImageServer.Number

theorem roundHalfEven_near (value : ℚ) : |(roundHalfEven value : ℚ) - value| ≤ 1 / 2 := by
  have below := Int.floor_le value
  have above := Int.lt_floor_add_one value
  unfold roundHalfEven
  rw [abs_le]
  dsimp only
  split
  · constructor <;> linarith
  · split
    · push_cast
      constructor <;> linarith
    · split <;> push_cast <;> constructor <;> linarith

theorem roundHalfEven_int (value : ℤ) : roundHalfEven value = value := by
  simp [roundHalfEven]

theorem roundHalfEven_neg (value : ℚ) : roundHalfEven (-value) = -roundHalfEven value := by
  have below := Int.floor_le value
  have above := Int.lt_floor_add_one value
  by_cases whole : (⌊value⌋ : ℚ) = value
  · have exact := roundHalfEven_int (-⌊value⌋)
    push_cast at exact
    rw [← whole, exact, roundHalfEven_int]
  have strict : (⌊value⌋ : ℚ) < value := lt_of_le_of_ne below whole
  have floor : ⌊-value⌋ = -⌊value⌋ - 1 := by
    rw [Int.floor_eq_iff]
    push_cast
    constructor <;> linarith
  have part : -value - (-⌊value⌋ - 1 : ℤ) = 1 - (value - ⌊value⌋) := by
    push_cast
    ring
  simp only [roundHalfEven, floor, part]
  rcases lt_trichotomy (value - ⌊value⌋) (1 / 2) with low | tie | high
  · rw [if_neg (by linarith), if_pos (by linarith), if_pos low]
    omega
  · simp only [tie]
    norm_num
    split <;> split <;> omega
  · rw [if_pos (by linarith), if_neg (by linarith), if_pos high]
    omega

/-- The power of two that the doubles near a magnitude are multiples of. -/
def unit (value : ℚ) : ℤ := max (Int.log 2 |value|) (-1022) - 52

theorem spacing_eq (value : ℚ) : spacing value = 2 ^ unit value := rfl

theorem spacing_pos (value : ℚ) : 0 < spacing value := zpow_pos (by norm_num) _

theorem unit_ge (value : ℚ) : -1074 ≤ unit value := by
  have := le_max_right (Int.log 2 |value|) (-1022)
  unfold unit
  omega

theorem abs_lt_spacing (value : ℚ) : |value| < 2 ^ 53 * spacing value := by
  have log := Int.lt_zpow_succ_log_self Nat.one_lt_two |value|
  have larger : (2 : ℚ) ^ (Int.log 2 |value| + 1) ≤ 2 ^ (53 + unit value) := by
    apply zpow_le_zpow_right₀ (by norm_num)
    have := le_max_left (Int.log 2 |value|) (-1022)
    unfold unit
    omega
  calc |value| < 2 ^ (Int.log 2 |value| + 1) := by exact_mod_cast log
    _ ≤ 2 ^ (53 + unit value) := larger
    _ = 2 ^ 53 * spacing value := by rw [spacing_eq, zpow_add₀ (by norm_num)]; norm_cast

theorem nearest_neg (value : ℚ) : nearest (-value) = neg (nearest value) := by
  have positive := spacing_pos value
  have same : spacing (-value) = spacing value := by simp [spacing]
  have rounded : (roundHalfEven (-value / spacing value) : ℚ) * spacing value =
      -(roundHalfEven (value / spacing value) * spacing value) := by
    rw [neg_div, roundHalfEven_neg]
    push_cast
    ring
  unfold nearest
  simp only [same, rounded, abs_neg]
  split
  · rfl
  next large =>
    have nonzero : (roundHalfEven (value / spacing value) : ℚ) * spacing value ≠ 0 := by
      intro zero
      simp [zero] at large
    simp only [neg, Number.inf.injEq]
    rcases lt_or_gt_of_ne nonzero with negative | positive
    · simp [negative, le_of_lt negative]
    · simp [positive, le_of_lt positive]

/-- A double: a whole multiple of a power of two, with at most 53 bits. -/
structure Double (value : ℚ) : Prop where
  grid : ∃ (significand : ℤ) (exponent : ℤ), value = significand * 2 ^ exponent ∧ |significand| ≤ 2 ^ 53 ∧
    -1074 ≤ exponent
  finite : |value| < 2 ^ 1024

theorem double_nearest {value rounded : ℚ} (done : nearest value = .fin rounded) : Double rounded := by
  simp only [nearest] at done
  split at done
  next finite =>
    injection done with same
    subst same
    refine ⟨⟨_, unit value, rfl, ?_, unit_ge value⟩, finite⟩
    have positive := spacing_pos value
    have bound : |value / spacing value| < 2 ^ 53 := by
      rw [abs_div, abs_of_pos positive, div_lt_iff₀ positive]
      exact abs_lt_spacing value
    have near := roundHalfEven_near (value / spacing value)
    have close : |(roundHalfEven (value / spacing value) : ℚ)| < 2 ^ 53 + 1 := by
      rw [abs_lt] at bound ⊢
      rw [abs_le] at near
      constructor <;> linarith
    have whole : |roundHalfEven (value / spacing value)| < 2 ^ 53 + 1 := by exact_mod_cast close
    omega
  next => cases done

/-- What is a whole multiple of the spacing at its magnitude is left as it is. -/
theorem nearest_of_multiple {value : ℚ} (significand : ℤ) (multiple : value = significand * spacing value)
    (finite : |value| < 2 ^ 1024) : nearest value = .fin value := by
  have quotient : value / spacing value = significand := by
    rw [div_eq_iff (ne_of_gt (spacing_pos value))]
    exact multiple
  simp only [nearest, quotient, roundHalfEven_int, ← multiple, finite, if_true]

theorem unit_le {value : ℚ} {exponent : ℤ} (nonzero : value ≠ 0) (small : |value| < 2 ^ (53 + exponent))
    (normal : -1074 ≤ exponent) : unit value ≤ exponent := by
  have log : Int.log 2 |value| < 53 + exponent := by
    apply (Int.lt_zpow_iff_log_lt Nat.one_lt_two (abs_pos.mpr nonzero)).mp
    exact_mod_cast small
  unfold unit
  omega

theorem nearest_of_small {value : ℚ} (significand exponent : ℤ) (shape : value = significand * 2 ^ exponent)
    (small : |significand| < 2 ^ 53) (normal : -1074 ≤ exponent) (finite : |value| < 2 ^ 1024) :
    nearest value = .fin value := by
  by_cases nonzero : value = 0
  · exact nearest_of_multiple 0 (by simp [nonzero]) finite
  have positive : (0 : ℚ) < 2 ^ exponent := zpow_pos (by norm_num) _
  have magnitude : |value| < 2 ^ (53 + exponent) := by
    rw [shape, abs_mul, abs_of_pos positive, zpow_add₀ (by norm_num)]
    exact mul_lt_mul_of_pos_right (by exact_mod_cast small) positive
  have fits := unit_le nonzero magnitude normal
  refine nearest_of_multiple (significand * 2 ^ (exponent - unit value).toNat) ?_ finite
  rw [spacing_eq]
  push_cast
  rw [mul_assoc, ← zpow_natCast, ← zpow_add₀ (by norm_num), Int.toNat_of_nonneg (by omega), sub_add_cancel]
  exact shape

theorem nearest_double {value : ℚ} (double : Double value) : nearest value = .fin value := by
  obtain ⟨significand, exponent, shape, bits, normal⟩ := double.grid
  rcases lt_or_eq_of_le bits with small | full
  · exact nearest_of_small significand exponent shape small normal double.finite
  -- 2 ^ 53 itself has one bit, one power of two further up
  · obtain ⟨sign, unitSign, same⟩ : ∃ sign : ℤ, |sign| = 1 ∧ significand = sign * 2 ^ 53 := by
      rcases abs_eq (by norm_num) |>.mp full with rfl | rfl
      · exact ⟨1, rfl, rfl⟩
      · exact ⟨-1, rfl, rfl⟩
    refine nearest_of_small sign (53 + exponent) ?_ (by rw [unitSign]; norm_num) (by omega) double.finite
    rw [shape, same, zpow_add₀ (by norm_num)]
    push_cast
    rw [mul_assoc]

theorem nearest_nearest {value rounded : ℚ} (done : nearest value = .fin rounded) :
    nearest rounded = .fin rounded :=
  nearest_double (double_nearest done)

theorem nearest_whole {value : ℤ} (small : |value| < 2 ^ 53) : nearest value = .fin value := by
  refine nearest_of_small value 0 (by simp) small (by norm_num) ?_
  calc |(value : ℚ)| < 2 ^ 53 := by exact_mod_cast small
    _ ≤ 2 ^ 1024 := pow_le_pow_right₀ (by norm_num) (by norm_num)

theorem nearest_int {value : ℤ} {rounded : ℚ} (done : nearest value = .fin rounded) :
    ∃ whole : ℤ, rounded = whole := by
  by_cases small : |value| < 2 ^ 53
  · rw [nearest_whole small] at done
    injection done with same
    exact ⟨value, same.symm⟩
  · have large : (2 : ℤ) ^ 53 ≤ |value| := by omega
    have nonzero : (value : ℚ) ≠ 0 := by
      rintro zero
      simp [Int.cast_eq_zero.mp zero] at small
    have log : 53 ≤ Int.log 2 |(value : ℚ)| := by
      apply (Int.zpow_le_iff_le_log Nat.one_lt_two (abs_pos.mpr nonzero)).mp
      exact_mod_cast large
    have coarse : 0 ≤ unit value := by
      unfold unit
      omega
    simp only [nearest] at done
    split at done
    next =>
      injection done with same
      refine ⟨roundHalfEven (value / spacing value) * 2 ^ (unit value).toNat, ?_⟩
      rw [← same, spacing_eq]
      push_cast
      rw [← zpow_natCast, Int.toNat_of_nonneg coarse]
    next => cases done

theorem spacing_le {value : ℚ} (large : 1 ≤ value) : spacing value ≤ value := by
  have positive : (0 : ℚ) < value := lt_of_lt_of_le one_pos large
  have log : 0 ≤ Int.log 2 |value| := by
    rw [abs_of_pos positive]
    exact (Int.zpow_le_iff_le_log Nat.one_lt_two positive).mp (by simpa using large)
  calc spacing value ≤ 2 ^ Int.log 2 |value| := by
        rw [spacing_eq]
        apply zpow_le_zpow_right₀ (by norm_num)
        unfold unit
        omega
    _ ≤ value := by
        rw [abs_of_pos positive]
        exact_mod_cast Int.zpow_log_le_self Nat.one_lt_two positive

/-- Rounding takes at most a half away. -/
theorem nearest_ge_half {value : ℚ} (large : 1 ≤ value) :
    nearest value = .inf false ∨ ∃ rounded, nearest value = .fin rounded ∧ value / 2 ≤ rounded := by
  have positive := spacing_pos value
  have near := (abs_le.mp (roundHalfEven_near (value / spacing value))).1
  have low : value / 2 ≤ roundHalfEven (value / spacing value) * spacing value := by
    calc value / 2 ≤ value - 1 / 2 * spacing value := by linarith [spacing_le large]
      _ = (value / spacing value - 1 / 2) * spacing value := by
        rw [sub_mul, div_mul_cancel₀ _ (ne_of_gt positive)]
      _ ≤ roundHalfEven (value / spacing value) * spacing value :=
        mul_le_mul_of_nonneg_right (by linarith) (le_of_lt positive)
  simp only [nearest]
  split
  · exact Or.inr ⟨_, rfl, low⟩
  · refine Or.inl ?_
    rw [decide_eq_false (by linarith)]

theorem top_step : (2 : ℚ) ^ 971 = 2 * 2 ^ 970 := pow_succ' 2 970

theorem top_power : (2 : ℚ) ^ 1024 = 2 ^ 53 * (2 * 2 ^ 970) := by rw [← top_step, ← pow_add]

/-- What stays below the largest double by half a step is not rounded to infinity. -/
theorem nearest_finite {value : ℚ} (small : |value| < 2 ^ 1024 - 2 ^ 970) : ∃ rounded, nearest value = .fin rounded := by
  have half : (0 : ℚ) < 2 ^ 970 := by positivity
  have step : spacing value ≤ 2 ^ 971 := by
    rw [spacing_eq, ← zpow_natCast]
    apply zpow_le_zpow_right₀ (by norm_num)
    by_cases zero : value = 0
    · subst zero
      decide +kernel
    · refine unit_le zero ?_ (by norm_num)
      calc |value| < 2 ^ 1024 := lt_of_lt_of_le small (sub_le_self _ (le_of_lt half))
        _ = 2 ^ (53 + ((971 : ℕ) : ℤ)) := by
          rw [← zpow_natCast]
          congr 1
  have positive := spacing_pos value
  have near := roundHalfEven_near (value / spacing value)
  have error : |roundHalfEven (value / spacing value) * spacing value - value| ≤ 2 ^ 970 := by
    calc |roundHalfEven (value / spacing value) * spacing value - value|
        = |roundHalfEven (value / spacing value) - value / spacing value| * spacing value := by
          rw [← abs_of_pos positive, ← abs_mul, abs_of_pos positive, sub_mul, div_mul_cancel₀ _ (ne_of_gt positive)]
      _ ≤ 1 / 2 * 2 ^ 971 := mul_le_mul near step (le_of_lt positive) (by norm_num)
      _ = 2 ^ 970 := by rw [top_step, ← mul_assoc, one_div_mul_cancel (by norm_num), one_mul]
  have finite : |roundHalfEven (value / spacing value) * spacing value| < 2 ^ 1024 := by
    rw [top_power, abs_lt] at small ⊢
    rw [abs_le] at error
    generalize (2 : ℚ) ^ 970 = half at *
    constructor <;> linarith
  exact ⟨_, by simp only [nearest, finite, if_true]; rfl⟩

theorem Double.le {value : ℚ} (double : Double value) : |value| ≤ 2 ^ 1024 - 2 ^ 971 := by
  obtain ⟨significand, exponent, rfl, bits, -⟩ := double.grid
  have finite := double.finite
  have positive : (0 : ℚ) < 2 ^ exponent := zpow_pos (by norm_num) _
  have half : (0 : ℚ) < 2 ^ 970 := by positivity
  rw [abs_mul, abs_of_pos positive] at finite ⊢
  rw [top_power] at finite
  rw [top_power, top_step]
  have coarse (high : 971 ≤ exponent) : (2 : ℚ) ^ exponent = 2 ^ (exponent - 971).toNat * (2 * 2 ^ 970) := by
    have back : exponent - 971 + ((971 : ℕ) : ℤ) = exponent := by omega
    rw [← top_step, ← zpow_natCast, ← zpow_natCast, ← zpow_add₀ (by norm_num), Int.toNat_of_nonneg (by omega), back]
  have fine (low : exponent < 971) : (2 : ℚ) ^ exponent ≤ 2 ^ 970 := by
    rw [← zpow_natCast]
    exact zpow_le_zpow_right₀ (by norm_num) (by omega)
  generalize (2 : ℚ) ^ 970 = step at *
  rcases lt_or_ge exponent 971 with low | high
  · calc |(significand : ℚ)| * 2 ^ exponent ≤ 2 ^ 53 * step :=
          mul_le_mul (by exact_mod_cast bits) (fine low) (le_of_lt positive) (by norm_num)
      _ ≤ 2 ^ 53 * (2 * step) - 2 * step := by linarith
  · rw [coarse high, ← mul_assoc] at finite ⊢
    have whole : |significand| * 2 ^ (exponent - 971).toNat < 2 ^ 53 := by
      exact_mod_cast lt_of_mul_lt_mul_right finite (by positivity)
    have below : |(significand : ℚ)| * 2 ^ (exponent - 971).toNat ≤ 2 ^ 53 - 1 := by
      have : |significand| * 2 ^ (exponent - 971).toNat ≤ 2 ^ 53 - 1 := by omega
      exact_mod_cast this
    calc _ ≤ ((2 : ℚ) ^ 53 - 1) * (2 * step) := mul_le_mul_of_nonneg_right below (by positivity)
      _ = 2 ^ 53 * (2 * step) - 2 * step := by ring

theorem add_finite {value : ℚ} (double : Double value) {n : ℕ} (small : (n : ℚ) < 2 ^ 970) :
    ∃ sum, add (.fin value) (.fin n) = .fin sum := by
  apply nearest_finite
  have most := double.le
  have positive : (0 : ℚ) ≤ n := Nat.cast_nonneg n
  rw [top_power, top_step, abs_le] at most
  rw [top_power, abs_lt]
  generalize (2 : ℚ) ^ 970 = half at *
  constructor <;> linarith

end ImageServer.Number
