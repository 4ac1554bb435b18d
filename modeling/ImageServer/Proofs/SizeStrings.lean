import ImageServer.Proofs.CacheKey
import ImageServer.Proofs.NumberTexts

/-! The text that is looked up among the permitted sizes. No side is written as a zero, and so is
a side of several zeros, which is a number. Fourteen digits of a number are written. -/

namespace ImageServer
open Lua

def sideText (side : Option Number) : Bytes :=
  match side with
  | some side => tostring side
  | none => bytes "0"

/-- Several zeros. -/
def Zeros (text : Bytes) : Prop := text ≠ bytes "0" ∧ ∀ b ∈ text, b = 48

instance (text : Bytes) : Decidable (Zeros text) := inferInstanceAs (Decidable (_ ∧ _))

/-- No side twice, or two numerals for one double. -/
def SameSide (text text' : Bytes) : Prop :=
  (Unsized text ∧ Unsized text') ∨
    (¬ Unsized text ∧ ¬ Unsized text' ∧ Number.nearest (decimal text) = Number.nearest (decimal text'))

/-- Two numerals for different doubles that agree in fourteen digits. -/
def Blurred (text text' : Bytes) : Prop :=
  ¬ Unsized text ∧ ¬ Unsized text' ∧ 10 ^ 14 ≤ decimal text ∧ 10 ^ 14 ≤ decimal text' ∧
    ∃ value value', Number.nearest (decimal text) = .fin value ∧ Number.nearest (decimal text') = .fin value' ∧
      value ≠ value' ∧ fourteenDigits value = fourteenDigits value'

/-- Sides that are written alike: the same, or different in one of two ways. -/
def Alike (text text' : Bytes) : Prop :=
  SameSide text text' ∨ (Unsized text ∧ Zeros text') ∨ (Zeros text ∧ Unsized text') ∨ Blurred text text'

theorem sameSide_iff {text text' : Bytes} (size : IsSize text) (size' : IsSize text') :
    ImageProcessor.sizeNumber text = ImageProcessor.sizeNumber text' ↔ SameSide text text' := by
  rw [sizeNumber_eq size, sizeNumber_eq size']
  change (if Unsized text then _ else _) = (if Unsized text' then _ else _) ↔ _
  by_cases unsized : Unsized text <;> by_cases unsized' : Unsized text' <;> simp [SameSide, unsized, unsized']

theorem Zeros.sized {text : Bytes} (zeros : Zeros text) : ¬ Unsized text := by
  rintro (zero | star)
  · exact zeros.1 zero
  · exact absurd (zeros.2 42 star) (by decide)

theorem Zeros.value {text : Bytes} (zeros : Zeros text) : decimal text = 0 := by
  refine (decimal_eq_zero_iff ?_).mpr zeros.2
  intro b member
  rw [zeros.2 b member]
  rfl

theorem sized_value {text : Bytes} (size : IsSize text) (sized : ¬ Unsized text) (some : ¬ Zeros text) :
    1 ≤ decimal text := by
  have digits : ∀ b ∈ text, isDigit b = true := by
    intro b member
    rcases size.2 b member with digit | rfl
    · exact digit
    · exact absurd (Or.inr member) sized
  by_contra small
  have zero : decimal text = 0 := by omega
  exact some ⟨fun one => sized (Or.inl one), (decimal_eq_zero_iff digits).mp zero⟩

theorem nearest_natural {n : Nat} (positive : 1 ≤ n) :
    Number.nearest n = .inf false ∨
      ∃ value, Number.nearest n = .fin value ∧ 1 ≤ value ∧ (n < 10 ^ 14 → value = n) ∧ (10 ^ 14 ≤ n → 10 ^ 14 ≤ value) := by
  by_cases small : n < 2 ^ 53
  · have exact : Number.nearest ((n : ℤ) : ℚ) = .fin ((n : ℤ) : ℚ) :=
      Number.nearest_whole (by rw [abs_of_nonneg (by omega)]; exact_mod_cast small)
    rw [Int.cast_natCast] at exact
    exact Or.inr ⟨n, exact, by exact_mod_cast positive, fun _ => rfl, fun large => by exact_mod_cast large⟩
  · have large : ((2 ^ 53 : ℕ) : ℚ) ≤ n := Nat.cast_le.mpr (by omega)
    push_cast at large
    rcases Number.nearest_ge_half (show (1 : ℚ) ≤ n by exact_mod_cast positive) with huge | ⟨value, read, half⟩
    · exact Or.inl huge
    · exact Or.inr ⟨value, read, by linarith, fun few => by omega, fun _ => by linarith⟩

theorem tostring_large {value : ℚ} (large : 1 ≤ value) : tostring (.fin value) = general value := by
  have positive : ¬ value ≤ 0 := by linarith
  simp only [tostring]
  rw [if_neg (by linarith), if_neg (by linarith)]

theorem general_head {value : ℚ} (large : 1 ≤ value) :
    ∃ b rest, general value = b :: rest ∧ isDigit b = true ∧ b ≠ 48 := by
  obtain ⟨significand, exponent, normal, text, -⟩ := general_eq large
  rw [text]
  apply scientific_head
  have := normal.1
  omega

theorem general_ne {value : ℚ} (large : 1 ≤ value) {text : Bytes}
    (other : ∀ b ∈ text.head?, isDigit b = false ∨ b = 48) : general value ≠ text := by
  intro same
  obtain ⟨b, rest, shape, digit, nonzero⟩ := general_head large
  rw [shape] at same
  subst same
  rcases other b rfl with letter | zero
  · rw [digit] at letter
    cases letter
  · exact nonzero zero

/-- Below 10 ^ 14 no digit is lost. -/
theorem large_of_digits {n n' : Nat} {value value' : ℚ} (positive : 1 ≤ n) (positive' : 1 ≤ n')
    (exact : n < 10 ^ 14 → value = n) (exact' : n' < 10 ^ 14 → value' = n') (large' : 10 ^ 14 ≤ n' → 10 ^ 14 ≤ value')
    (differ : value ≠ value') (digits : fourteenDigits value = fourteenDigits value') : 10 ^ 14 ≤ n := by
  by_contra small
  have few : n < 10 ^ 14 := by omega
  obtain rfl := exact few
  rw [fourteenDigits_small positive few] at digits
  by_cases small' : n' < 10 ^ 14
  · obtain rfl := exact' small'
    rw [fourteenDigits_small positive' small'] at digits
    exact differ digits
  · have above := fourteenDigits_large (large' (by omega))
    rw [← digits] at above
    have : 10 ^ 14 ≤ n := by exact_mod_cast above
    omega

theorem numerals_alike {n n' : Nat} (positive : 1 ≤ n) (positive' : 1 ≤ n') :
    tostring (Number.nearest n) = tostring (Number.nearest n') ↔
      Number.nearest n = Number.nearest n' ∨
        (10 ^ 14 ≤ n ∧ 10 ^ 14 ≤ n' ∧ ∃ value value', Number.nearest n = .fin value ∧ Number.nearest n' = .fin value' ∧
          value ≠ value' ∧ fourteenDigits value = fourteenDigits value') := by
  rcases nearest_natural positive with huge | ⟨value, read, one, exact, large⟩ <;>
    rcases nearest_natural positive' with huge' | ⟨value', read', one', exact', large'⟩
  · simp [huge, huge']
  · have other : general value' ≠ bytes "inf" := general_ne one' (by decide +kernel)
    have text : tostring (.inf false) = bytes "inf" := rfl
    rw [huge, read', tostring_large one', text]
    simpa using other.symm
  · have other : general value ≠ bytes "inf" := general_ne one (by decide +kernel)
    have text : tostring (.inf false) = bytes "inf" := rfl
    rw [huge', read, tostring_large one, text]
    simpa using other
  · rw [read, read', tostring_large one, tostring_large one', general_eq_iff one one']
    constructor
    · intro digits
      by_cases same : value = value'
      · exact Or.inl (by rw [same])
      · exact Or.inr ⟨large_of_digits positive positive' exact exact' large' same digits,
          large_of_digits positive' positive exact' exact large (Ne.symm same) digits.symm, value, value', rfl, rfl, same,
          digits⟩
    · rintro (same | ⟨-, -, one, other, left, right, -, digits⟩)
      · rw [Number.fin.inj same]
      · rw [Number.fin.inj left, Number.fin.inj right, digits]

/-- Each side of `sizeStr` is a zero, or the text of a numeral of one or more. -/
theorem side_cases {text : Bytes} (size : IsSize text) :
    ((Unsized text ∨ Zeros text) ∧ sideText (ImageProcessor.sizeNumber text) = bytes "0") ∨
      (¬ Unsized text ∧ ¬ Zeros text ∧ 1 ≤ decimal text ∧
        ImageProcessor.sizeNumber text = some (.nearest (decimal text))) := by
  by_cases unsized : Unsized text
  · exact Or.inl ⟨Or.inl unsized, by rw [(sizeNumber_none_iff size).mpr unsized]; rfl⟩
  have read : ImageProcessor.sizeNumber text = some (.nearest (decimal text)) := by
    rw [sizeNumber_eq size]
    exact if_neg unsized
  by_cases zeros : Zeros text
  · refine Or.inl ⟨Or.inr zeros, ?_⟩
    rw [read, zeros.value]
    decide +kernel
  · exact Or.inr ⟨unsized, zeros, sized_value size unsized zeros, read⟩

theorem numeral_ne_zero {n : Nat} (positive : 1 ≤ n) : tostring (Number.nearest n) ≠ bytes "0" := by
  rcases nearest_natural positive with huge | ⟨value, read, one, -, -⟩
  · rw [huge]
    decide
  · rw [read, tostring_large one]
    exact general_ne one (by decide +kernel)

theorem Alike.symm {text text' : Bytes} (alike : Alike text text') : Alike text' text := by
  rcases alike with (⟨unsized, unsized'⟩ | ⟨sized, sized', same⟩) | ⟨unsized, zeros'⟩ | ⟨zeros, unsized'⟩ | blurred
  · exact Or.inl (Or.inl ⟨unsized', unsized⟩)
  · exact Or.inl (Or.inr ⟨sized', sized, same.symm⟩)
  · exact Or.inr (Or.inr (Or.inl ⟨zeros', unsized⟩))
  · exact Or.inr (Or.inl ⟨unsized', zeros⟩)
  · obtain ⟨sized, sized', large, large', value, value', read, read', differ, digits⟩ := blurred
    exact Or.inr (Or.inr (Or.inr ⟨sized', sized, large', large, value', value, read', read, Ne.symm differ, digits.symm⟩))

theorem not_alike {text text' : Bytes} (blank : Unsized text ∨ Zeros text) (sized' : ¬ Unsized text')
    (notZeros' : ¬ Zeros text') (positive' : 1 ≤ decimal text') : ¬ Alike text text' := by
  rintro ((⟨-, unsized'⟩ | ⟨sized, -, same⟩) | ⟨-, zeros'⟩ | ⟨-, unsized'⟩ | ⟨sized, -, large, -⟩)
  · exact sized' unsized'
  · rw [(blank.resolve_left sized).value] at same
    have zero : Number.nearest ((0 : ℕ) : ℚ) = .fin 0 := by decide +kernel
    rw [zero] at same
    rcases nearest_natural positive' with huge | ⟨value, read, one, -⟩
    · rw [huge] at same
      cases same
    · rw [read] at same
      have := Number.fin.inj same
      linarith
  · exact notZeros' zeros'
  · exact sized' unsized'
  · rw [(blank.resolve_left sized).value] at large
    norm_num at large

theorem sideText_eq_iff {text text' : Bytes} (size : IsSize text) (size' : IsSize text') :
    sideText (ImageProcessor.sizeNumber text) = sideText (ImageProcessor.sizeNumber text') ↔ Alike text text' := by
  rcases side_cases size with ⟨blank, zero⟩ | ⟨sized, notZeros, positive, read⟩ <;>
    rcases side_cases size' with ⟨blank', zero'⟩ | ⟨sized', notZeros', positive', read'⟩
  · refine iff_of_true (zero.trans zero'.symm) ?_
    rcases blank with unsized | zeros <;> rcases blank' with unsized' | zeros'
    · exact Or.inl (Or.inl ⟨unsized, unsized'⟩)
    · exact Or.inr (Or.inl ⟨unsized, zeros'⟩)
    · exact Or.inr (Or.inr (Or.inl ⟨zeros, unsized'⟩))
    · exact Or.inl (Or.inr ⟨zeros.sized, zeros'.sized, by rw [zeros.value, zeros'.value]⟩)
  · refine iff_of_false ?_ ?_
    · rw [zero, read']
      exact (numeral_ne_zero positive').symm
    · exact not_alike blank sized' notZeros' positive'
  · refine iff_of_false ?_ ?_
    · rw [zero', read]
      exact numeral_ne_zero positive
    · exact fun alike => not_alike blank' sized notZeros positive alike.symm
  · rw [read, read']
    simp only [sideText, numerals_alike positive positive', Alike, SameSide, Blurred, sized, sized', notZeros,
      notZeros', not_false_eq_true, true_and, false_or, and_false]

theorem sideText_plain {text : Bytes} (size : IsSize text) : (120 : UInt8) ∉ sideText (ImageProcessor.sizeNumber text) := by
  rcases side_cases size with ⟨-, zero⟩ | ⟨-, -, positive, read⟩
  · rw [zero]
    decide
  · rw [read]
    rcases nearest_natural positive with huge | ⟨value, finite, one, -⟩
    · rw [huge]
      decide
    · obtain ⟨significand, exponent, -, written, -⟩ := general_eq one
      simp only [finite, sideText, tostring_large one, written]
      intro letter
      have := mem_scientific letter
      revert this
      decide

theorem sizeStr_eq_iff {request other : SizedRequest} :
    sizeStr (ImageProcessor.sizeNumber request.sizeStr1) (ImageProcessor.sizeNumber request.sizeStr2) =
        sizeStr (ImageProcessor.sizeNumber other.sizeStr1) (ImageProcessor.sizeNumber other.sizeStr2) ↔
      Alike request.sizeStr1 other.sizeStr1 ∧ Alike request.sizeStr2 other.sizeStr2 := by
  have shape (width height : Option Number) : sizeStr width height = sideText width ++ 120 :: sideText height := by
    unfold sizeStr
    rw [List.append_assoc]
    rfl
  rw [shape, shape, ← sideText_eq_iff request.size1 other.size1, ← sideText_eq_iff request.size2 other.size2]
  constructor
  · intro same
    exact split_at_last (sideText_plain request.size2) (sideText_plain other.size2) same
  · intro same
    rw [same.1, same.2]

/-- A side that is nil or at least one. -/
def Whole (side : Option Number) : Prop := ∀ number, side = some number → Number.le 1 number = true

theorem whole_iff {text : Bytes} (size : IsSize text) : Whole (ImageProcessor.sizeNumber text) ↔ ¬ Zeros text := by
  constructor
  · intro whole zeros
    have read : ImageProcessor.sizeNumber text = some (.nearest (decimal text)) := by
      rw [sizeNumber_eq size]
      exact if_neg zeros.sized
    have least := whole _ read
    rw [zeros.value] at least
    revert least
    decide +kernel
  · intro notZeros number read
    rw [sizeNumber_eq size] at read
    split at read
    next => cases read
    next sized =>
      have positive := sized_value size sized notZeros
      rcases nearest_natural positive with huge | ⟨value, finite, one, -⟩
      · rw [← Option.some.inj read, huge]
        rfl
      · rw [← Option.some.inj read, finite]
        rcases lt_or_eq_of_le one with more | rfl
        · have less : Number.lt 1 (.fin value) = true := by
            change decide (((1 : ℕ) : ℚ) < value) = true
            simpa using more
          rw [Number.le, less, Bool.true_or]
        · decide +kernel

theorem Blurred.differ {text text' : Bytes} (blurred : Blurred text text') : ¬ SameSide text text' := by
  obtain ⟨sized, -, -, -, value, value', read, read', differ, -⟩ := blurred
  rintro (⟨unsized, -⟩ | ⟨-, -, same⟩)
  · exact sized unsized
  · rw [read, read'] at same
    exact differ (Number.fin.inj same)

theorem Alike.of_no_zeros {text text' : Bytes} (alike : Alike text text') (some : ¬ Zeros text) (some' : ¬ Zeros text') :
    SameSide text text' ∨ Blurred text text' := by
  rcases alike with same | ⟨-, zeros⟩ | ⟨zeros, -⟩ | blurred
  · exact Or.inl same
  · exact absurd zeros some'
  · exact absurd zeros some
  · exact Or.inr blurred

/-- The text of the sizes is among the permitted ones, so the thumbnail is made. -/
def Permitted (self : ImageProcessor) (info : ThumbInfo) : Prop := sizeStr info.width info.height ∈ self.permitedSizes

/-- What the permitted sizes stand for: `thumbnail4LargeImgs` gets the same sides for the same
text, and no side below one. -/
def Guarded (self : ImageProcessor) (info info' : ThumbInfo) : Prop :=
  (sizeStr info.width info.height = sizeStr info'.width info'.height → Permitted self info →
      info.width = info'.width ∧ info.height = info'.height) ∧
    (Permitted self info → Whole info.width ∧ Whole info.height) ∧
    (Permitted self info' → Whole info'.width ∧ Whole info'.height)

/-- The permitted sizes guard two requests exactly when no permitted one has a side of several
zeros and none of their sides differ in digits that are not written. -/
theorem guarded_iff (self : ImageProcessor) {files files' : Files} {path path' : Bytes} {info info' : ThumbInfo}
    {width height width' height' : Bytes} (accepted : self.extractThumbInfo files path = some info)
    (accepted' : self.extractThumbInfo files' path' = some info') (texts : sizeTexts path = some (width, height))
    (texts' : sizeTexts path' = some (width', height')) :
    Guarded self info info' ↔
      (Permitted self info → ¬ Zeros width ∧ ¬ Zeros height) ∧
        (Permitted self info' → ¬ Zeros width' ∧ ¬ Zeros height') ∧
        (Permitted self info → ¬ (Blurred width width' ∧ (SameSide height height' ∨ Blurred height height')) ∧
          ¬ ((SameSide width width' ∨ Blurred width width') ∧ Blurred height height')) := by
  obtain ⟨request, of, rfl⟩ := extractThumbInfo_some accepted
  obtain ⟨other, of', rfl⟩ := extractThumbInfo_some accepted'
  obtain ⟨rfl, rfl⟩ := Prod.mk.inj (Option.some.inj (of.sizes.symm.trans texts))
  obtain ⟨rfl, rfl⟩ := Prod.mk.inj (Option.some.inj (of'.sizes.symm.trans texts'))
  have text : sizeStr (request.info self files).width (request.info self files).height =
      sizeStr (other.info self files').width (other.info self files').height ↔
        Alike request.sizeStr1 other.sizeStr1 ∧ Alike request.sizeStr2 other.sizeStr2 := sizeStr_eq_iff
  have sides : ((request.info self files).width = (other.info self files').width ∧
      (request.info self files).height = (other.info self files').height) ↔
        SameSide request.sizeStr1 other.sizeStr1 ∧ SameSide request.sizeStr2 other.sizeStr2 :=
    and_congr (sameSide_iff request.size1 other.size1) (sameSide_iff request.size2 other.size2)
  have whole (request : SizedRequest) (files : Files) :
      (Whole (request.info self files).width ∧ Whole (request.info self files).height) ↔
        ¬ Zeros request.sizeStr1 ∧ ¬ Zeros request.sizeStr2 :=
    and_congr (whole_iff request.size1) (whole_iff request.size2)
  rw [Guarded, sides, whole, whole]
  constructor
  · intro guarded
    obtain ⟨decides, numerals, numerals'⟩ := guarded
    refine ⟨numerals, numerals', ?_⟩
    intro permitted
    have alike {text text' : Bytes} (near : SameSide text text' ∨ Blurred text text') : Alike text text' :=
      near.imp id fun blurred => Or.inr (Or.inr blurred)
    have written (near : SameSide request.sizeStr1 other.sizeStr1 ∨ Blurred request.sizeStr1 other.sizeStr1)
        (near' : SameSide request.sizeStr2 other.sizeStr2 ∨ Blurred request.sizeStr2 other.sizeStr2) :=
      decides (text.mpr ⟨alike near, alike near'⟩) permitted
    refine ⟨?_, ?_⟩
    · intro holds
      obtain ⟨blurred, near⟩ := holds
      exact blurred.differ (written (Or.inr blurred) near).1
    · intro holds
      obtain ⟨near, blurred⟩ := holds
      exact blurred.differ (written near (Or.inr blurred)).2
  · intro condition
    obtain ⟨numerals, numerals', clear⟩ := condition
    refine ⟨?_, numerals, numerals'⟩
    intro same permitted
    have permitted' : Permitted self (other.info self files') := by rwa [Permitted, ← same]
    obtain ⟨alike, alike'⟩ := text.mp same
    have near := alike.of_no_zeros (numerals permitted).1 (numerals' permitted').1
    have near' := alike'.of_no_zeros (numerals permitted).2 (numerals' permitted').2
    obtain ⟨noWidth, noHeight⟩ := clear permitted
    exact ⟨near.resolve_right fun blurred => noWidth ⟨blurred, near'⟩,
      near'.resolve_right fun blurred => noHeight ⟨near, blurred⟩⟩

/-- A lone zero and a star both ask for no height. -/
theorem guarded_480 :
    ∃ info info', Thumbnail.processor.extractThumbInfo (fun _ => none) (bytes "/a.480x0.jpg") = some info ∧
      Thumbnail.processor.extractThumbInfo (fun _ => none) (bytes "/a.480x*.jpg") = some info' ∧
      Guarded Thumbnail.processor info info' := by
  have first : ∃ info, Thumbnail.processor.extractThumbInfo (fun _ => none) (bytes "/a.480x0.jpg") = some info :=
    Option.isSome_iff_exists.mp (by decide +kernel)
  have second : ∃ info, Thumbnail.processor.extractThumbInfo (fun _ => none) (bytes "/a.480x*.jpg") = some info :=
    Option.isSome_iff_exists.mp (by decide +kernel)
  obtain ⟨info, accepted⟩ := first
  obtain ⟨info', accepted'⟩ := second
  have texts : sizeTexts (bytes "/a.480x0.jpg") = some (bytes "480", bytes "0") := by decide +kernel
  have texts' : sizeTexts (bytes "/a.480x*.jpg") = some (bytes "480", bytes "*") := by decide +kernel
  have small : ¬ 10 ^ 14 ≤ decimal (bytes "480") := by decide +kernel
  have small' : ¬ 10 ^ 14 ≤ decimal (bytes "0") := by decide +kernel
  refine ⟨info, info', accepted, accepted',
    (guarded_iff Thumbnail.processor accepted accepted' texts texts').mpr ⟨?_, ?_, ?_⟩⟩
  · exact fun _ => by decide
  · exact fun _ => by decide
  · exact fun _ => ⟨fun blurred => small blurred.1.2.2.1, fun blurred => small' blurred.2.2.2.1⟩

/-- Two zeros are a height of zero, written as if there were no height. -/
theorem double_zero_unguarded :
    ∃ info info', Thumbnail.processor.extractThumbInfo (fun _ => none) (bytes "/a.480x00.jpg") = some info ∧
      Thumbnail.processor.extractThumbInfo (fun _ => none) (bytes "/a.480x0.jpg") = some info' ∧
      Permitted Thumbnail.processor info ∧
      sizeStr info.width info.height = sizeStr info'.width info'.height ∧ info.height ≠ info'.height ∧
      info.height = some 0 ∧ ¬ Guarded Thumbnail.processor info info' := by
  have checked : (Thumbnail.processor.extractThumbInfo (fun _ => none) (bytes "/a.480x00.jpg")).any (fun info =>
      (Thumbnail.processor.extractThumbInfo (fun _ => none) (bytes "/a.480x0.jpg")).any fun info' =>
        decide (sizeStr info.width info.height ∈ Thumbnail.processor.permitedSizes) &&
          decide (sizeStr info.width info.height = sizeStr info'.width info'.height) &&
          decide (info.height = some 0) && decide (info'.height = none)) = true := by decide +kernel
  obtain ⟨info, accepted, rest⟩ := (Option.any_eq_true _ _).mp checked
  obtain ⟨info', accepted', facts⟩ := (Option.any_eq_true _ _).mp rest
  simp only [Bool.and_eq_true, decide_eq_true_eq] at facts
  obtain ⟨⟨⟨permitted, same⟩, zero⟩, none⟩ := facts
  have differ : info.height ≠ info'.height := by
    rw [zero, none]
    exact Option.some_ne_none _
  exact ⟨info, info', accepted, accepted', permitted, same, differ, zero,
    fun guarded => differ (guarded.1 same permitted).2⟩

end ImageServer
