import ImageServer.JavaScript
import ImageServer.Proofs.Rounding

/-! A whole number written to a text is read back as the same number. -/

namespace ImageServer.JavaScript
open Number

theorem digitOf_isDigit {c : Char} (digit : c.isDigit = true) : digitOf 10 c = some (c.toNat - 48) := by
  obtain ⟨least, most⟩ : '0' ≤ c ∧ c ≤ '9' := by simpa [Char.isDigit, Char.le_def] using digit
  have small : c.toNat - 48 < 10 := by
    have : c.toNat ≤ 57 := most
    omega
  simp only [digitOf, least, most, and_self, if_true, small]

theorem leadingDigits_digits {text : Text} (digits : ∀ c ∈ text, c.isDigit = true) :
    leadingDigits 10 text = text.map fun c => c.toNat - 48 := by
  induction text with
  | nil => rfl
  | cons c rest ih =>
    rw [leadingDigits, digitOf_isDigit (digits c (by simp))]
    simp [ih fun d member => digits d (by simp [member])]

theorem valueOf_digits (text : Text) : valueOf 10 (text.map fun c => c.toNat - 48) = Nat.ofDigitChars 10 text 0 := by
  rw [valueOf, List.foldl_map]
  rfl

theorem radixOf_digits {text : Text} (digits : ∀ c ∈ text, c.isDigit = true) : radixOf text = (10, text) := by
  unfold radixOf
  split
  next => exact absurd (digits 'x' (by simp)) (by decide)
  next => exact absurd (digits 'X' (by simp)) (by decide)
  next => rfl

theorem signOf_digits {text : Text} (digits : ∀ c ∈ text, c.isDigit = true) : signOf text = (false, text) := by
  unfold signOf
  split
  next => exact absurd (digits '-' (by simp)) (by decide)
  next => exact absurd (digits '+' (by simp)) (by decide)
  next => rfl

theorem digit_range {c : Char} (digit : c.isDigit = true) : 48 ≤ c.toNat ∧ c.toNat ≤ 57 := by
  simpa [Char.isDigit, UInt32.le_iff_toNat_le] using digit

theorem isWhite_digit {c : Char} (digit : c.isDigit = true) : isWhite c = false := by
  obtain ⟨least, most⟩ := digit_range digit
  simp only [isWhite, List.mem_cons, List.not_mem_nil, or_false, Bool.or_eq_false_iff, decide_eq_false_iff_not,
    Bool.and_eq_false_iff]
  omega

theorem toDigits_digits (n : Nat) : ∀ c ∈ Nat.toDigits 10 n, c.isDigit = true := fun _ member =>
  Nat.isDigit_of_mem_toDigits (by norm_num) (le_refl 10) member

theorem parseInt_signed {text : Text} (negative : Bool) (n : Nat) (notWhite : text.dropWhile isWhite = text)
    (signed : signOf text = (negative, Nat.toDigits 10 n)) :
    parseInt text = .nearest (if negative then -n else n) := by
  unfold parseInt
  rw [notWhite, signed]
  simp only [radixOf_digits (toDigits_digits n), leadingDigits_digits (toDigits_digits n)]
  split
  next none => exact absurd (List.map_eq_nil_iff.mp none) Nat.toDigits_ne_nil
  next => rw [valueOf_digits, Nat.ofDigitChars_ten_toDigits]

theorem dropWhile_toDigits (n : Nat) : (Nat.toDigits 10 n).dropWhile isWhite = Nat.toDigits 10 n := by
  have digits := toDigits_digits n
  cases shape : Nat.toDigits 10 n with
  | nil => rfl
  | cons c rest =>
    rw [shape] at digits
    simp [isWhite_digit (digits c (by simp))]

theorem parseInt_toDigits (n : Nat) : parseInt (Nat.toDigits 10 n) = .nearest n :=
  parseInt_signed false n (dropWhile_toDigits n) (signOf_digits (toDigits_digits n))

/-- No part of a numeral. -/
def Control (c : Char) : Prop := c.toNat ≤ 16

theorem Control.digitOf {c : Char} (control : Control c) : digitOf 10 c = none := by
  unfold Control at control
  have notDigit : ¬ ('0' ≤ c ∧ c ≤ '9') := by
    intro holds
    obtain ⟨least, -⟩ := holds
    have : 48 ≤ c.toNat := least
    omega
  have notLower : ¬ ('a' ≤ c ∧ c ≤ 'z') := by
    intro holds
    obtain ⟨least, -⟩ := holds
    have : 97 ≤ c.toNat := least
    omega
  have notUpper : ¬ ('A' ≤ c ∧ c ≤ 'Z') := by
    intro holds
    obtain ⟨least, -⟩ := holds
    have : 65 ≤ c.toNat := least
    omega
  simp only [JavaScript.digitOf, if_neg notDigit, if_neg notLower, if_neg notUpper]
  decide

theorem leadingDigits_append {text rest : Text} (digits : ∀ c ∈ text, c.isDigit = true)
    (stops : ∀ c ∈ rest.head?, Control c) : leadingDigits 10 (text ++ rest) = leadingDigits 10 text := by
  induction text with
  | nil =>
    cases rest with
    | nil => rfl
    | cons c rest => simp only [List.nil_append, leadingDigits, (stops c rfl).digitOf]
  | cons c text ih =>
    have later := ih fun d member => digits d (List.mem_cons_of_mem c member)
    rw [List.cons_append, leadingDigits, leadingDigits, later]

theorem radixOf_append {text rest : Text} (digits : ∀ c ∈ text, c.isDigit = true)
    (stops : ∀ c ∈ rest.head?, Control c) : radixOf (text ++ rest) = (10, text ++ rest) := by
  have plain (c : Char) (letter : c = 'x' ∨ c = 'X') (more : Text) : text ++ rest ≠ '0' :: c :: more := by
    intro shape
    have outside : ¬ c.isDigit = true ∧ ¬ Control c := by
      rcases letter with rfl | rfl <;> exact ⟨by decide, by unfold Control; decide⟩
    rcases text with _ | ⟨first, _ | ⟨second, text⟩⟩
    · subst shape
      exact absurd (stops '0' rfl) (by unfold Control; decide)
    · obtain rfl := (List.cons.inj shape).2
      exact outside.2 (stops c rfl)
    · obtain rfl := (List.cons.inj (List.cons.inj shape).2).1
      exact outside.1 (digits second (by simp))
  unfold radixOf
  split
  next more shape => exact absurd shape (plain 'x' (Or.inl rfl) more)
  next more shape => exact absurd shape (plain 'X' (Or.inr rfl) more)
  next => rfl

/-- What follows a numeral and is no part of it is ignored. -/
theorem parseInt_append (n : Nat) {rest : Text} (stops : ∀ c ∈ rest.head?, Control c) :
    parseInt (Nat.toDigits 10 n ++ rest) = .nearest n := by
  have digits := toDigits_digits n
  have signed : signOf ((Nat.toDigits 10 n ++ rest).dropWhile isWhite) = (false, Nat.toDigits 10 n ++ rest) := by
    obtain ⟨c, text, shape⟩ := List.exists_cons_of_ne_nil (@Nat.toDigits_ne_nil n 10)
    have digit : c.isDigit = true := digits c (by simp [shape])
    rw [shape, List.cons_append, List.dropWhile_cons_of_neg (by simp [isWhite_digit digit])]
    unfold signOf
    split
    next => exact absurd digit (by simp_all)
    next => exact absurd digit (by simp_all)
    next => rfl
  rw [← parseInt_toDigits n]
  unfold parseInt
  rw [signed, dropWhile_toDigits, signOf_digits digits]
  simp only [radixOf_append digits stops, radixOf_digits digits, leadingDigits_append digits stops]

theorem parseInt_negative (n : Nat) : parseInt ('-' :: Nat.toDigits 10 n) = .nearest (-n) :=
  parseInt_signed true n rfl rfl

theorem nearest_shortest {n : Nat} (double : nearest (n : ℚ) = .fin n) : nearest (shortest n : ℚ) = .fin n := by
  unfold shortest
  dsimp only
  generalize found : (shortened n).find? _ = result
  cases result with
  | none => exact double
  | some short => simpa using List.find?_some found

theorem mark_not_toDigits (n : Nat) : '|' ∉ Nat.toDigits 10 n := fun member =>
  absurd (toDigits_digits n '|' member) (by decide)

theorem mark_not_numberText (value : ℚ) : '|' ∉ numberText (.fin value) := by
  simp only [numberText]
  split
  · simp [mark_not_toDigits]
  · exact mark_not_toDigits _

/-- A double with a whole value is read back from its text. -/
theorem parseInt_numberText {value : ℤ} (double : nearest (value : ℚ) = .fin value) :
    parseInt (numberText (.fin value)) = .fin value := by
  simp only [numberText]
  rcases lt_or_ge value 0 with negative | positive
  · obtain ⟨n, rfl⟩ : ∃ n : ℕ, value = -n := ⟨value.natAbs, by omega⟩
    have whole : ⌊-((-n : ℤ) : ℚ)⌋.toNat = n := by simp
    have opposite : nearest (n : ℚ) = .fin n := by
      push_cast at double
      simpa [double, neg] using nearest_neg (-n : ℚ)
    rw [if_pos (by exact_mod_cast negative), whole, parseInt_negative, nearest_neg, nearest_shortest opposite]
    simp [neg]
  · obtain ⟨n, rfl⟩ := Int.eq_ofNat_of_zero_le positive
    have whole : ⌊((n : ℤ) : ℚ)⌋.toNat = n := by simp
    rw [if_neg (by simp), whole, parseInt_toDigits]
    exact_mod_cast nearest_shortest (by exact_mod_cast double)

end ImageServer.JavaScript
