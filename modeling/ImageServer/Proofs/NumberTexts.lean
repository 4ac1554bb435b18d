import ImageServer.Proofs.Rounding
import Mathlib.Data.List.TakeWhile
import Mathlib.Data.Nat.Digits.Lemmas

/-! How `%.14g` writes a number of one or more. What is written is fourteen digits and an exponent,
and it can be read back, so two numbers are written alike exactly when they agree in fourteen digits. -/

namespace ImageServer

theorem decimal_snoc (digits : Bytes) (digit : UInt8) :
    decimal (digits ++ [digit]) = 10 * decimal digits + (digit.toNat - 48) := by
  simp [decimal]

theorem decimal_decimalDigits (n : Nat) : decimal (decimalDigits n) = n := by
  have digits (list : List Nat) (small : ∀ digit ∈ list, digit < 10) :
      decimal (list.reverse.map fun digit => UInt8.ofNat (48 + digit)) = Nat.ofDigits 10 list := by
    induction list with
    | nil => rfl
    | cons digit list ih =>
      have low := small digit (by simp)
      have rest := ih fun other member => small other (by simp [member])
      rw [List.reverse_cons, List.map_append, List.map_singleton, decimal_snoc, rest, Nat.ofDigits_cons, UInt8.toNat_ofNat']
      omega
  unfold decimalDigits
  split
  next zero => simp [zero, decimal]
  next => rw [digits _ fun digit member => Nat.digits_lt_base (by norm_num) member, Nat.ofDigits_digits]

theorem decimalDigits_isDigit {n : Nat} {b : UInt8} (member : b ∈ decimalDigits n) : isDigit b = true := by
  unfold decimalDigits at member
  split at member
  next => rw [List.mem_singleton.mp member]; decide
  next =>
    obtain ⟨digit, inside, rfl⟩ := List.mem_map.mp member
    have small : digit < 10 := Nat.digits_lt_base (by norm_num) (List.mem_reverse.mp inside)
    simp only [isDigit, UInt8.le_iff_toNat_le, UInt8.toNat_ofNat', Bool.and_eq_true, decide_eq_true_eq]
    have low : (48 : UInt8).toNat = 48 := rfl
    have high : (57 : UInt8).toNat = 57 := rfl
    omega

theorem decimalDigits_length {n k : Nat} (low : 10 ^ k ≤ n) (high : n < 10 ^ (k + 1)) :
    (decimalDigits n).length = k + 1 := by
  have positive : n ≠ 0 := by
    have := Nat.pow_pos (n := k) (show 0 < 10 by norm_num)
    omega
  rw [decimalDigits, if_neg positive, List.length_map, List.length_reverse, Nat.length_digits 10 n (by norm_num) positive,
    Nat.log_eq_of_pow_le_of_lt_pow low high]

theorem decimal_eq_zero_iff {text : Bytes} (digits : ∀ b ∈ text, isDigit b = true) :
    decimal text = 0 ↔ ∀ b ∈ text, b = 48 := by
  induction text using List.reverseRecOn with
  | nil => simp [decimal]
  | append_singleton text digit ih =>
    have zero : digit.toNat - 48 = 0 ↔ digit = 48 := by
      have range := digits digit (by simp)
      simp only [isDigit, UInt8.le_iff_toNat_le, Bool.and_eq_true, decide_eq_true_eq] at range
      have low : (48 : UInt8).toNat = 48 := rfl
      rw [← UInt8.toNat_inj]
      omega
    have rest := ih fun b member => digits b (by simp [member])
    rw [decimal_snoc, Nat.add_eq_zero_iff, Nat.mul_eq_zero, rest, zero]
    simp only [List.mem_append, List.mem_singleton, or_imp, forall_and, forall_eq]
    simp

theorem decimalDigits_head {n : Nat} (positive : n ≠ 0) :
    ∃ b rest, decimalDigits n = b :: rest ∧ isDigit b = true ∧ b ≠ 48 := by
  have some : Nat.digits 10 n ≠ [] := Nat.digits_ne_nil_iff_ne_zero.mpr positive
  obtain ⟨digits, last, shape⟩ := (Nat.digits 10 n).eq_nil_or_concat.resolve_left some
  have member : last ∈ Nat.digits 10 n := by simp [shape]
  have small : last < 10 := Nat.digits_lt_base (by norm_num) member
  have nonzero : last ≠ 0 := by
    have leading := Nat.getLast_digit_ne_zero 10 positive
    simpa [shape] using leading
  have form : decimalDigits n = UInt8.ofNat (48 + last) :: digits.reverse.map fun digit => UInt8.ofNat (48 + digit) := by
    rw [decimalDigits, if_neg positive, shape]
    simp
  have first : UInt8.ofNat (48 + last) ∈ decimalDigits n := by simp [form]
  refine ⟨_, _, form, decimalDigits_isDigit first, ?_⟩
  intro zero
  have value := congrArg UInt8.toNat zero
  rw [UInt8.toNat_ofNat'] at value
  have low : (48 : UInt8).toNat = 48 := rfl
  omega

namespace Lua

theorem stripZeros_append (digits : Bytes) : ∃ n, digits = stripZeros digits ++ List.replicate n 48 := by
  have zeros : ∀ b ∈ digits.reverse.takeWhile (· = 48), b = 48 := by
    intro b member
    simpa using List.mem_takeWhile_imp member
  refine ⟨(digits.reverse.takeWhile (· = 48)).length, ?_⟩
  have run := List.eq_replicate_of_mem zeros
  calc digits = (digits.reverse.takeWhile (· = 48) ++ digits.reverse.dropWhile (· = 48)).reverse := by
        rw [List.takeWhile_append_dropWhile, List.reverse_reverse]
    _ = stripZeros digits ++ (digits.reverse.takeWhile (· = 48)).reverse := List.reverse_append
    _ = stripZeros digits ++ List.replicate (digits.reverse.takeWhile (· = 48)).length 48 := by
        rw [run, List.reverse_replicate, List.length_replicate]

theorem stripZeros_injective {digits digits' : Bytes} (long : digits.length = digits'.length)
    (same : stripZeros digits = stripZeros digits') : digits = digits' := by
  obtain ⟨n, shape⟩ := stripZeros_append digits
  obtain ⟨n', shape'⟩ := stripZeros_append digits'
  rw [shape, shape', same] at long
  have zeros : n = n' := by simpa using long
  rw [shape, shape', same, zeros]

theorem fraction_injective {digits digits' : Bytes} (long : digits.length = digits'.length)
    (same : fraction digits = fraction digits') : digits = digits' := by
  apply stripZeros_injective long
  unfold fraction at same
  split at same <;> split at same
  next none none' => rw [none, none']
  next => cases same
  next => cases same
  next => exact (List.cons.inj same).2

theorem split_fraction {whole whole' digits digits' : Bytes} (plain : (46 : UInt8) ∉ whole) (plain' : (46 : UInt8) ∉ whole')
    (same : whole ++ fraction digits = whole' ++ fraction digits') :
    whole = whole' ∧ fraction digits = fraction digits' := by
  have cut {whole digits : Bytes} (plain : (46 : UInt8) ∉ whole) :
      (whole ++ fraction digits).takeWhile (· != 46) = whole := by
    have all : ∀ b ∈ whole, (b != 46) = true := by
      intro b member
      simpa using fun point : b = 46 => plain (point ▸ member)
    rw [List.takeWhile_append_of_pos all]
    unfold fraction
    split <;> simp
  have first : whole = whole' := by rw [← cut plain, same, cut plain']
  subst first
  exact ⟨rfl, List.append_cancel_left same⟩

/-- The text for a significand of fourteen digits and the exponent of its first one. -/
def scientific (significand exponent : Nat) : Bytes :=
  let digits := decimalDigits significand
  if exponent < 14 then digits.take (exponent + 1) ++ fraction (digits.drop (exponent + 1))
  else digits.take 1 ++ fraction (digits.drop 1) ++ 101 :: 43 :: decimalDigits exponent

theorem decimalDigits_injective {m n : Nat} (same : decimalDigits m = decimalDigits n) : m = n := by
  rw [← decimal_decimalDigits m, same, decimal_decimalDigits]

theorem not_mem_digits {b : UInt8} (other : isDigit b = false) {n : Nat} : b ∉ decimalDigits n := by
  intro member
  rw [decimalDigits_isDigit member] at other
  cases other

theorem mem_fraction {b : UInt8} {digits : Bytes} (member : b ∈ fraction digits) : b = 46 ∨ b ∈ digits := by
  unfold fraction at member
  split at member
  · cases member
  · rcases List.mem_cons.mp member with point | digit
    · exact Or.inl point
    · obtain ⟨n, shape⟩ := stripZeros_append digits
      exact Or.inr (shape ▸ List.mem_append_left _ digit)

/-- Fourteen digits, the first of which is not zero. -/
def Normal (significand : Nat) : Prop := 10 ^ 13 ≤ significand ∧ significand < 10 ^ 14

theorem Normal.length {significand : Nat} (normal : Normal significand) : (decimalDigits significand).length = 14 :=
  decimalDigits_length normal.1 normal.2

/-- The first digits, with the others behind a point, give all digits and how many come first. -/
theorem pointed_injective {m m' p p' : Nat} (normal : Normal m) (normal' : Normal m') (few : p ≤ 14) (few' : p' ≤ 14)
    (same : (decimalDigits m).take p ++ fraction ((decimalDigits m).drop p) =
      (decimalDigits m').take p' ++ fraction ((decimalDigits m').drop p')) : m = m' ∧ p = p' := by
  have plain (n p : Nat) : (46 : UInt8) ∉ (decimalDigits n).take p :=
    fun member => not_mem_digits (by decide) (List.mem_of_mem_take member)
  obtain ⟨wholes, fractions⟩ := split_fraction (plain m p) (plain m' p') same
  have lengths := congrArg List.length wholes
  rw [List.length_take, List.length_take, normal.length, normal'.length] at lengths
  obtain rfl : p = p' := by omega
  have rests := fraction_injective (by rw [List.length_drop, List.length_drop, normal.length, normal'.length]) fractions
  have digits : decimalDigits m = decimalDigits m' := by
    rw [← List.take_append_drop p (decimalDigits m), wholes, rests, List.take_append_drop]
  exact ⟨decimalDigits_injective digits, rfl⟩

theorem scientific_injective {m m' e e' : Nat} (normal : Normal m) (normal' : Normal m')
    (same : scientific m e = scientific m' e') : m = m' ∧ e = e' := by
  have plain (n p : Nat) : ∀ b ∈ (decimalDigits n).take p ++ fraction ((decimalDigits n).drop p), (b != 101) = true := by
    intro b member
    rw [bne_iff_ne]
    rintro rfl
    rcases List.mem_append.mp member with whole | part
    · exact not_mem_digits (by decide) (List.mem_of_mem_take whole)
    · rcases mem_fraction part with point | digit
      · exact absurd point (by decide)
      · exact not_mem_digits (by decide) (List.mem_of_mem_drop digit)
  -- the letter that begins an exponent is nowhere else
  have cut (n p : Nat) (tail : Bytes) (begins : tail.takeWhile (· != 101) = []) :
      ((decimalDigits n).take p ++ fraction ((decimalDigits n).drop p) ++ tail).takeWhile (· != 101) =
        (decimalDigits n).take p ++ fraction ((decimalDigits n).drop p) := by
    rw [List.takeWhile_append_of_pos (plain n p), begins, List.append_nil]
  have shape (n e : Nat) : ∃ p tail, p ≤ 14 ∧ tail.takeWhile (· != 101) = [] ∧
      scientific n e = (decimalDigits n).take p ++ fraction ((decimalDigits n).drop p) ++ tail ∧
      ((e < 14 ∧ p = e + 1 ∧ tail = []) ∨ (14 ≤ e ∧ tail = 101 :: 43 :: decimalDigits e)) := by
    by_cases small : e < 14
    · exact ⟨e + 1, [], by omega, rfl, by simp [scientific, small], Or.inl ⟨small, rfl, rfl⟩⟩
    · exact ⟨1, _, by omega, by simp, by simp [scientific, small], Or.inr ⟨by omega, rfl⟩⟩
  obtain ⟨p, tail, few, begins, text, ends⟩ := shape m e
  obtain ⟨p', tail', few', begins', text', ends'⟩ := shape m' e'
  rw [text, text'] at same
  have heads : (decimalDigits m).take p ++ fraction ((decimalDigits m).drop p) =
      (decimalDigits m').take p' ++ fraction ((decimalDigits m').drop p') := by
    rw [← cut m p tail begins, same, cut m' p' tail' begins']
  obtain ⟨rfl, rfl⟩ := pointed_injective normal normal' few few' heads
  refine ⟨rfl, ?_⟩
  have tails : tail = tail' := List.append_cancel_left same
  rcases ends with ⟨-, place, none⟩ | ⟨-, some⟩ <;> rcases ends' with ⟨-, place', none'⟩ | ⟨-, some'⟩
  · omega
  · rw [none, some'] at tails
    cases tails
  · rw [some, none'] at tails
    cases tails
  · rw [some, some'] at tails
    exact decimalDigits_injective (List.cons.inj (List.cons.inj tails).2).2

theorem scientific_head {significand exponent : Nat} (positive : significand ≠ 0) :
    ∃ b rest, scientific significand exponent = b :: rest ∧ isDigit b = true ∧ b ≠ 48 := by
  obtain ⟨b, rest, digits, digit, nonzero⟩ := decimalDigits_head positive
  have shape : ∃ more, scientific significand exponent = b :: more := by
    unfold scientific
    rw [digits]
    split
    · exact ⟨_, rfl⟩
    · exact ⟨_, rfl⟩
  obtain ⟨more, text⟩ := shape
  exact ⟨b, more, text, digit, nonzero⟩

theorem mem_scientific {b : UInt8} {significand exponent : Nat} (member : b ∈ scientific significand exponent) :
    isDigit b = true ∨ b = 46 ∨ b = 101 ∨ b = 43 := by
  have part (p : Nat) (inside : b ∈ (decimalDigits significand).take p ++ fraction ((decimalDigits significand).drop p)) :
      isDigit b = true ∨ b = 46 := by
    rcases List.mem_append.mp inside with whole | digits
    · exact Or.inl (decimalDigits_isDigit (List.mem_of_mem_take whole))
    · rcases mem_fraction digits with point | digit
      · exact Or.inr point
      · exact Or.inl (decimalDigits_isDigit (List.mem_of_mem_drop digit))
  unfold scientific at member
  dsimp only at member
  split at member
  · rcases part _ member with digit | point
    · exact Or.inl digit
    · exact Or.inr (Or.inl point)
  · rcases List.mem_append.mp member with inside | tail
    · rcases part _ inside with digit | point
      · exact Or.inl digit
      · exact Or.inr (Or.inl point)
    · rcases List.mem_cons.mp tail with letter | tail
      · exact Or.inr (Or.inr (Or.inl letter))
      · rcases List.mem_cons.mp tail with sign | digit
        · exact Or.inr (Or.inr (Or.inr sign))
        · exact Or.inl (decimalDigits_isDigit digit)

/-- A number of one or more, rounded to fourteen digits. -/
def fourteenDigits (value : ℚ) : ℚ :=
  Number.roundHalfEven (value / 10 ^ (Int.log 10 value - 13)) * 10 ^ (Int.log 10 value - 13)

/-- Fourteen digits before the point, or the power of ten after them. -/
theorem scaled_range {value : ℚ} (large : 1 ≤ value) :
    0 ≤ Int.log 10 value ∧ 10 ^ 13 ≤ Number.roundHalfEven (value / 10 ^ (Int.log 10 value - 13)) ∧
      Number.roundHalfEven (value / 10 ^ (Int.log 10 value - 13)) ≤ 10 ^ 14 := by
  have positive : (0 : ℚ) < value := lt_of_lt_of_le one_pos large
  have ten : (0 : ℚ) < 10 ^ (Int.log 10 value - 13) := zpow_pos (by norm_num) _
  have low := Int.zpow_log_le_self (show 1 < 10 by norm_num) positive
  have high := Int.lt_zpow_succ_log_self (show 1 < 10 by norm_num) value
  push_cast at low high
  have least : (10 : ℚ) ^ 13 ≤ value / 10 ^ (Int.log 10 value - 13) := by
    rw [le_div_iff₀ ten, ← zpow_natCast, ← zpow_add₀ (by norm_num)]
    simpa using low
  have most : value / 10 ^ (Int.log 10 value - 13) < 10 ^ 14 := by
    rw [div_lt_iff₀ ten, ← zpow_natCast, ← zpow_add₀ (by norm_num)]
    have exponent : ((14 : ℕ) : ℤ) + (Int.log 10 value - 13) = Int.log 10 value + 1 := by push_cast; ring
    rwa [exponent]
  have near := abs_le.mp (Number.roundHalfEven_near (value / 10 ^ (Int.log 10 value - 13)))
  refine ⟨(Int.zpow_le_iff_le_log (show 1 < 10 by norm_num) positive).mp (by simpa using large), ?_, ?_⟩
  · have above : ((10 ^ 13 - 1 : ℤ) : ℚ) < Number.roundHalfEven (value / 10 ^ (Int.log 10 value - 13)) := by
      push_cast
      linarith [near.1]
    have := Int.cast_lt.mp above
    omega
  · have below : (Number.roundHalfEven (value / 10 ^ (Int.log 10 value - 13)) : ℚ) < ((10 ^ 14 + 1 : ℤ) : ℚ) := by
      push_cast
      linarith [near.2]
    have := Int.cast_lt.mp below
    omega

/-- The three forms of `%g`, of which an exponent that is not negative has two. -/
theorem forms_eq (significand exponent : Nat) :
    let digits := decimalDigits significand
    let exponent' : ℤ := exponent
    (if 0 ≤ exponent' ∧ exponent' < 14 then
        digits.take (exponent'.toNat + 1) ++ fraction (digits.drop (exponent'.toNat + 1))
      else if -4 ≤ exponent' ∧ exponent' < 0 then
        [48, 46] ++ List.replicate ((-exponent').toNat - 1) 48 ++ stripZeros digits
      else
        digits.take 1 ++ fraction (digits.drop 1) ++ [101, if exponent' < 0 then 45 else 43] ++
          (if exponent'.natAbs < 10 then [48] else []) ++ decimalDigits exponent'.natAbs) =
      scientific significand exponent := by
  intro digits exponent'
  by_cases small : exponent < 14
  · have form : 0 ≤ exponent' ∧ exponent' < 14 := by omega
    simp [form, scientific, small, digits, exponent']
  · have form : ¬ (0 ≤ exponent' ∧ exponent' < 14) := by omega
    have form' : ¬ (-4 ≤ exponent' ∧ exponent' < 0) := by omega
    have sign : ¬ exponent' < 0 := by omega
    have long : ¬ exponent'.natAbs < 10 := by omega
    rw [if_neg form, if_neg form', if_neg sign, if_neg long]
    simp [scientific, small, digits, exponent']

theorem general_eq {value : ℚ} (large : 1 ≤ value) :
    ∃ significand exponent : Nat, Normal significand ∧ general value = scientific significand exponent ∧
      fourteenDigits value = significand * 10 ^ ((exponent : ℤ) - 13) := by
  obtain ⟨whole, least, most⟩ := scaled_range large
  obtain ⟨exponent, log⟩ := Int.eq_ofNat_of_zero_le whole
  obtain ⟨scaled, rounded⟩ := Int.eq_ofNat_of_zero_le (le_trans (by norm_num) least)
  rw [rounded] at least most
  rw [log] at rounded
  unfold general fourteenDigits
  simp only [log, rounded]
  by_cases carry : scaled = 10 ^ 14
  · subst carry
    refine ⟨10 ^ 13, exponent + 1, ⟨le_refl _, by norm_num⟩, ?_, ?_⟩
    · rw [← forms_eq]
      simp
    · have step : ((exponent + 1 : ℕ) : ℤ) - 13 = (exponent - 13 : ℤ) + 1 := by push_cast; ring
      rw [step, zpow_add_one₀ (by norm_num)]
      push_cast
      ring
  · have other : ¬ (scaled : ℤ) = 10 ^ 14 := by exact_mod_cast carry
    refine ⟨scaled, exponent, ⟨by omega, by omega⟩, ?_, by simp⟩
    rw [← forms_eq]
    simp only [other, if_false, Int.toNat_natCast]

theorem Normal.range {significand : Nat} (normal : Normal significand) (exponent : Nat) :
    (10 : ℚ) ^ exponent ≤ significand * 10 ^ ((exponent : ℤ) - 13) ∧
      significand * 10 ^ ((exponent : ℤ) - 13) < (10 : ℚ) ^ (exponent + 1) := by
  have ten : (0 : ℚ) < 10 ^ ((exponent : ℤ) - 13) := zpow_pos (by norm_num) _
  have low : ((10 ^ 13 : ℕ) : ℚ) ≤ significand := Nat.cast_le.mpr normal.1
  have high : (significand : ℚ) < ((10 ^ 14 : ℕ) : ℚ) := Nat.cast_lt.mpr normal.2
  have power (n : ℕ) : (10 : ℚ) ^ n * 10 ^ ((exponent : ℤ) - 13) = 10 ^ ((n : ℤ) + (exponent - 13)) := by
    rw [← zpow_natCast, ← zpow_add₀ (by norm_num)]
  have first : ((13 : ℕ) : ℤ) + ((exponent : ℤ) - 13) = exponent := by push_cast; ring
  have second : ((14 : ℕ) : ℤ) + ((exponent : ℤ) - 13) = (exponent + 1 : ℕ) := by push_cast; ring
  constructor
  · calc (10 : ℚ) ^ exponent = 10 ^ 13 * 10 ^ ((exponent : ℤ) - 13) := by rw [power, first, zpow_natCast]
      _ ≤ significand * 10 ^ ((exponent : ℤ) - 13) := mul_le_mul_of_nonneg_right (by exact_mod_cast low) (le_of_lt ten)
  · calc (significand : ℚ) * 10 ^ ((exponent : ℤ) - 13) < 10 ^ 14 * 10 ^ ((exponent : ℤ) - 13) :=
        mul_lt_mul_of_pos_right (by exact_mod_cast high) ten
      _ = (10 : ℚ) ^ (exponent + 1) := by rw [power, second, zpow_natCast]

theorem scientific_unique {m m' e e' : Nat} (normal : Normal m) (normal' : Normal m')
    (same : (m : ℚ) * 10 ^ ((e : ℤ) - 13) = m' * 10 ^ ((e' : ℤ) - 13)) : m = m' ∧ e = e' := by
  have exponents {m m' e e' : Nat} (normal : Normal m) (normal' : Normal m')
      (same : (m : ℚ) * 10 ^ ((e : ℤ) - 13) = m' * 10 ^ ((e' : ℤ) - 13)) : e ≤ e' := by
    have below : (10 : ℚ) ^ e < 10 ^ (e' + 1) :=
      calc (10 : ℚ) ^ e ≤ m * 10 ^ ((e : ℤ) - 13) := (normal.range e).1
        _ = m' * 10 ^ ((e' : ℤ) - 13) := same
        _ < 10 ^ (e' + 1) := (normal'.range e').2
    have := (pow_lt_pow_iff_right₀ (by norm_num)).mp below
    omega
  obtain rfl : e = e' := le_antisymm (exponents normal normal' same) (exponents normal' normal same.symm)
  have ten : (10 : ℚ) ^ ((e : ℤ) - 13) ≠ 0 := ne_of_gt (zpow_pos (by norm_num) _)
  exact ⟨Nat.cast_injective (mul_right_cancel₀ ten same), rfl⟩

theorem general_eq_iff {value value' : ℚ} (large : 1 ≤ value) (large' : 1 ≤ value') :
    general value = general value' ↔ fourteenDigits value = fourteenDigits value' := by
  obtain ⟨m, e, normal, text, digits⟩ := general_eq large
  obtain ⟨m', e', normal', text', digits'⟩ := general_eq large'
  rw [text, text', digits, digits']
  constructor
  · intro same
    obtain ⟨rfl, rfl⟩ := scientific_injective normal normal' same
    rfl
  · intro same
    obtain ⟨rfl, rfl⟩ := scientific_unique normal normal' same
    rfl

theorem fourteenDigits_small {n : Nat} (positive : 1 ≤ n) (small : n < 10 ^ 14) : fourteenDigits n = n := by
  have some : n ≠ 0 := by omega
  have log : Int.log 10 (n : ℚ) = Nat.log 10 n := Int.log_natCast 10 n
  have few : Nat.log 10 n < 14 := Nat.log_lt_of_lt_pow some small
  have ten : (10 : ℚ) ^ ((Nat.log 10 n : ℤ) - 13) ≠ 0 := ne_of_gt (zpow_pos (by norm_num) _)
  have exact : (n : ℚ) / 10 ^ ((Nat.log 10 n : ℤ) - 13) = ((n * 10 ^ (13 - Nat.log 10 n) : ℕ) : ℤ) := by
    rw [div_eq_iff ten]
    push_cast
    rw [mul_assoc, ← zpow_natCast, ← zpow_add₀ (by norm_num)]
    have cancel : ((13 - Nat.log 10 n : ℕ) : ℤ) + ((Nat.log 10 n : ℤ) - 13) = 0 := by omega
    rw [cancel, zpow_zero, mul_one]
  rw [fourteenDigits, log, exact, Number.roundHalfEven_int, ← exact, div_mul_cancel₀ _ ten]

theorem fourteenDigits_large {value : ℚ} (large : 10 ^ 14 ≤ value) : 10 ^ 14 ≤ fourteenDigits value := by
  have one : 1 ≤ value := le_trans (by norm_num) large
  obtain ⟨-, least, -⟩ := scaled_range one
  have log : (14 : ℤ) ≤ Int.log 10 value :=
    (Int.zpow_le_iff_le_log (show 1 < 10 by norm_num) (lt_of_lt_of_le one_pos one)).mp (by exact_mod_cast large)
  have power : (10 : ℚ) ^ (1 : ℤ) ≤ 10 ^ (Int.log 10 value - 13) := zpow_le_zpow_right₀ (by norm_num) (by omega)
  have digits : (10 : ℚ) ^ 13 ≤ Number.roundHalfEven (value / 10 ^ (Int.log 10 value - 13)) := by
    have cast := (Int.cast_le (R := ℚ)).mpr least
    push_cast at cast
    exact cast
  calc (10 : ℚ) ^ 14 = 10 ^ 13 * 10 ^ (1 : ℤ) := by norm_num
    _ ≤ fourteenDigits value := mul_le_mul digits power (by norm_num) (le_trans (by norm_num) digits)

end Lua
end ImageServer
