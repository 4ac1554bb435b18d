import ImageServer.Proofs.Envelopes
import Mathlib.Data.List.TakeWhile
import Mathlib.Data.Nat.Digits.Lemmas

/-! Messages in files and in envelopes. The size before a part says where it ends, so a file that was
cut off gives the parts before the cut. Only an empty part at the end of a file is not seen. -/

namespace ImageServer.Zmsg

theorem hexValue_hexDigit {n : Nat} (small : n < 16) : hexValue (hexDigit n) = some n := by
  have all : ∀ n < 16, hexValue (hexDigit n) = some n := by decide
  exact all n small

/-- What the digits of a number are worth, read from the first. -/
def hexNumber (digits : Bytes) : Nat := digits.foldl (fun value b => 16 * value + (hexValue b).getD 0) 0

theorem foldl_zeros (count : Nat) (rest : Bytes) : hexNumber (List.replicate count 48 ++ rest) = hexNumber rest := by
  induction count with
  | zero => rfl
  | succ count ih => exact ih

theorem hexNumber_hexDigits (n : Nat) : hexNumber (hexDigits n) = n := by
  unfold hexDigits
  split
  next zero => rw [zero]; rfl
  next =>
    have value : ∀ digits : List Nat, (∀ d ∈ digits, d < 16) →
        hexNumber (digits.reverse.map hexDigit) = Nat.ofDigits 16 digits := by
      intro digits small
      simp only [hexNumber, List.foldl_map, List.foldl_reverse]
      induction digits with
      | nil => rfl
      | cons d digits ih =>
        rw [List.foldr_cons, ih fun other member => small other (List.mem_cons_of_mem d member),
          hexValue_hexDigit (small d List.mem_cons_self), Option.getD_some, Nat.ofDigits_cons]
        omega
    rw [value _ fun d member => Nat.digits_lt_base (by norm_num) member, Nat.ofDigits_digits]

def Hex (text : Bytes) : Prop := ∀ b ∈ text, (hexValue b).isSome

theorem hex_hexDigits (n : Nat) : Hex (hexDigits n) := by
  intro b member
  unfold hexDigits at member
  split at member
  · rw [List.mem_singleton.mp member]
    rfl
  · obtain ⟨d, digit, rfl⟩ := List.mem_map.mp member
    have small : d < 16 := Nat.digits_lt_base (by norm_num) (List.mem_reverse.mp digit)
    rw [hexValue_hexDigit small]
    rfl

theorem hexValue_none {b : UInt8} (other : b = 0 ∨ isSpace b = true ∨ b = 43 ∨ b = 45 ∨ b = 120 ∨ b = 88) :
    hexValue b = none := by
  rcases other with rfl | space | rfl | rfl | rfl | rfl
  · rfl
  · simp only [isSpace, Bool.or_eq_true, Bool.and_eq_true, decide_eq_true_eq, UInt8.le_iff_toNat_le] at space
    simp only [hexValue, UInt8.le_iff_toNat_le]
    rcases space with rfl | space
    · rfl
    · have high : b.toNat ≤ 13 := space.2
      rw [if_neg (by simp; omega), if_neg (by simp; omega), if_neg (by simp; omega)]
  all_goals rfl

theorem hex_other {text : Bytes} (hex : Hex text) {b : UInt8} (other : hexValue b = none) : b ∉ text := by
  intro member
  have value := hex b member
  rw [other] at value
  cases value

theorem strtoulDigits_hex {text : Bytes} (hex : Hex text) (some : text ≠ []) :
    strtoulDigits text = .some (hexNumber text, []) := by
  have all : (text.takeWhile fun b => (hexValue b).isSome) = text := List.takeWhile_eq_self_iff.mpr hex
  unfold strtoulDigits
  rw [all]
  cases text with
  | nil => exact absurd rfl some
  | cons b rest => simp [hexNumber]

/-- A text of digits is their number, without a sign or a prefix to be taken off. -/
theorem tonumber16_hex {text : Bytes} (hex : Hex text) (some : text ≠ []) :
    tonumber16 text = .some (hexNumber text) := by
  have whole : text.takeWhile (· ≠ 0) = text := by
    apply List.takeWhile_eq_self_iff.mpr
    intro b member
    apply decide_eq_true
    rintro rfl
    exact hex_other hex rfl member
  have unspaced : text.dropWhile isSpace = text := by
    cases text with
    | nil => rfl
    | cons b rest =>
      apply List.dropWhile_cons_of_neg
      intro space
      exact hex_other hex (hexValue_none (.inr (.inl space))) List.mem_cons_self
  have unsigned : strtoulUnsigned text = .some (hexNumber text, []) := by
    unfold strtoulUnsigned
    split
    next x rest =>
      rw [if_neg ?_, strtoulDigits_hex hex some]
      intro mark
      refine hex_other hex (b := x) (hexValue_none ?_) (by simp)
      tauto
    next => exact strtoulDigits_hex hex some
  have read : strtoul text = .some (hexNumber text, []) := by
    unfold strtoul
    rw [unspaced]
    split
    next rest => exact absurd List.mem_cons_self (hex_other hex (b := 43) rfl)
    next rest => exact absurd List.mem_cons_self (hex_other hex (b := 45) rfl)
    next => exact unsigned
  rw [tonumber16, whole, read]
  rfl

/-- Sizes below four gigabytes have room before their parts. -/
def Small (part : Bytes) : Prop := part.length < 2 ^ 32

theorem length_hexDigits {n : Nat} (small : n < 2 ^ 32) : (hexDigits n).length ≤ 8 := by
  unfold hexDigits
  split
  · decide
  · rw [List.length_map, List.length_reverse]
    exact (Nat.digits_length_le_iff (by norm_num) n).mpr (by omega)

/-- A part with its size before it. -/
def frame (part : Bytes) : Bytes := sizePrefix part.length ++ part

theorem save_eq (self : Zmsg) (file : Bytes) : save self file = file ++ self.reverse.flatMap frame := by
  unfold save
  induction self.reverse generalizing file with
  | nil => simp
  | cons part parts ih =>
    rw [List.foldl_cons, ih, savePart, List.flatMap_cons, frame]
    simp

/-- The eight digits of a size, without the colon. -/
theorem sizePrefix_shape {n : Nat} (small : n < 2 ^ 32) : ∃ digits, sizePrefix n = digits ++ [58] ∧
    digits.length = 8 ∧ Hex digits ∧ hexNumber digits = n := by
  have few := length_hexDigits small
  refine ⟨_, rfl, ?_, ?_, ?_⟩
  · simp only [List.length_append, List.length_replicate]
    omega
  · intro b member
    rcases List.mem_append.mp member with zero | digit
    · rw [List.eq_of_mem_replicate zero]
      rfl
    · exact hex_hexDigits n b digit
  · rw [foldl_zeros, hexNumber_hexDigits]

theorem length_sizePrefix {n : Nat} (small : n < 2 ^ 32) : (sizePrefix n).length = 9 := by
  obtain ⟨digits, shape, eight, -⟩ := sizePrefix_shape small
  rw [shape, List.length_append, eight]
  rfl

theorem read_some {count : Nat} {file : Bytes} (some : file ≠ []) :
    read count file = (.some (file.take count), file.drop count) := if_neg some

/-- The first turn over a whole size. -/
theorem loadLoop_frame {part rest : Bytes} (small : Small part) (fuel : Nat) (self : Zmsg) :
    loadLoop (fuel + 1) self (sizePrefix part.length ++ rest) =
      match read part.length rest with
      | (none, _) => .ok self
      | (some part, file) => loadLoop fuel (self ++ [part]) file := by
  obtain ⟨digits, shape, eight, hex, value⟩ := sizePrefix_shape small
  have nine := length_sizePrefix small
  have some : sizePrefix part.length ++ rest ≠ [] := by simp [shape]
  have size : (sizePrefix part.length).take 8 = digits := by rw [shape, ← eight, List.take_left]
  have digit : digits ≠ [] := by
    rintro rfl
    cases eight
  rw [loadLoop, read_some some, ← nine, List.take_left, List.drop_left]
  rcases taken : read part.length rest with ⟨_ | part', file⟩ <;> simp only [size, tonumber16_hex hex digit, value, taken]

/-- What is left of some parts when their file is cut off: the first of them, and perhaps a piece of
the next. -/
inductive Cut : List Bytes → List Bytes → Prop
  | none (parts) : Cut parts []
  | piece {part piece : Bytes} (parts) : piece <+: part → piece ≠ [] → Cut (part :: parts) [piece]
  | part {parts loaded : List Bytes} (part) : Cut parts loaded → Cut (part :: parts) (part :: loaded)

/-- A size that was cut off is still a number, and then the file is at its end. -/
theorem loadLoop_short {digits : Bytes} (hex : Hex (digits.take 8)) (few : digits.length ≤ 9) (fuel : Nat) (self : Zmsg) :
    loadLoop fuel self digits = .ok self := by
  cases fuel with
  | zero => rfl
  | succ fuel =>
    by_cases empty : digits = []
    · rw [empty]
      rfl
    · have some : (digits.take 9).take 8 ≠ [] := by simpa using empty
      have eight : (digits.take 9).take 8 = digits.take 8 := List.take_take
      rw [eight] at some
      rw [loadLoop, read_some empty, List.drop_eq_nil_of_le few]
      simp only [eight, tonumber16_hex hex some]
      rfl

theorem loadLoop_cut {parts : List Bytes} (small : ∀ part ∈ parts, Small part) (stop : Nat) {fuel : Nat}
    (enough : stop < fuel) (self : Zmsg) :
    ∃ loaded, loadLoop fuel self ((parts.flatMap frame).take stop) = .ok (self ++ loaded) ∧ Cut parts loaded := by
  induction parts generalizing stop fuel self with
  | nil =>
    refine ⟨[], ?_, .none []⟩
    rw [List.flatMap_nil, List.take_nil, loadLoop_short (by simp [Hex]) (by simp), List.append_nil]
  | cons part parts ih =>
    have here : Small part := small part List.mem_cons_self
    obtain ⟨digits, shape, eight, hex, -⟩ := sizePrefix_shape here
    have nine := length_sizePrefix here
    rw [List.flatMap_cons, frame, List.append_assoc]
    by_cases within : stop ≤ 9
    · refine ⟨[], ?_, .none _⟩
      rw [List.take_append_of_le_length (by omega), loadLoop_short ?_ (by rw [List.length_take]; omega), List.append_nil]
      intro b member
      apply hex b
      rw [List.take_take, shape, List.take_append_of_le_length (by omega)] at member
      exact List.mem_of_mem_take member
    obtain ⟨fuel, rfl⟩ : ∃ more, fuel = more + 1 := ⟨fuel - 1, by omega⟩
    rw [List.take_append, nine, List.take_of_length_le (by omega), loadLoop_frame here]
    by_cases ended : (part ++ parts.flatMap frame).take (stop - 9) = []
    · refine ⟨[], ?_, .none _⟩
      rw [ended, List.append_nil]
      rfl
    rw [read_some ended]
    dsimp only
    by_cases inside : stop - 9 < part.length
    · -- the cut falls into this part, and nothing is left for the next turn
      refine ⟨[part.take (stop - 9)], ?_, .piece _ (List.take_prefix _ _) ?_⟩
      · have most : ((part ++ parts.flatMap frame).take (stop - 9)).length ≤ part.length := by
          rw [List.length_take]
          omega
        rw [List.take_of_length_le most, List.drop_eq_nil_of_le most, List.take_append_of_le_length (by omega),
          loadLoop_short (by simp [Hex]) (by simp)]
      · rwa [List.take_append_of_le_length (by omega)] at ended
    · have later : stop - 9 - part.length < fuel := by omega
      obtain ⟨loaded, done, cut⟩ := ih (fun other member => small other (List.mem_cons_of_mem part member))
        (stop - 9 - part.length) later (self ++ [part])
      refine ⟨part :: loaded, ?_, .part part cut⟩
      rw [List.take_append, List.take_of_length_le (show part.length ≤ stop - 9 by omega), List.take_left,
        List.drop_left, done]
      simp

theorem loadLoop_whole {parts : List Bytes} (small : ∀ part ∈ parts, Small part) {fuel : Nat}
    (enough : parts.length < fuel) (self : Zmsg) :
    loadLoop fuel self (parts.flatMap frame) =
      .ok (self ++ if parts.getLast? = some [] then parts.dropLast else parts) := by
  induction parts generalizing fuel self with
  | nil => rw [List.flatMap_nil, loadLoop_short (by simp [Hex]) (by simp)]; simp
  | cons part parts ih =>
    obtain ⟨fuel, rfl⟩ : ∃ more, fuel = more + 1 := ⟨fuel - 1, by omega⟩
    rw [List.flatMap_cons, frame, List.append_assoc, loadLoop_frame (small part List.mem_cons_self)]
    by_cases ended : part ++ parts.flatMap frame = []
    · obtain ⟨rfl, rest⟩ := List.append_eq_nil_iff.mp ended
      have last : parts = [] := by
        cases parts with
        | nil => rfl
        | cons next parts => simp [frame, sizePrefix] at rest
      subst last
      simp [read]
    · rw [read_some ended, List.take_left, List.drop_left]
      dsimp only
      rw [ih (fun other member => small other (List.mem_cons_of_mem part member)) (by simpa using enough)]
      cases parts with
      | nil =>
        have some : part ≠ [] := by simpa using ended
        simp [some]
      | cons next parts =>
        rw [List.getLast?_cons_cons, List.dropLast_cons_cons]
        split <;> simp

theorem length_frames (parts : List Bytes) : parts.length ≤ (parts.flatMap frame).length := by
  induction parts with
  | nil => simp
  | cons part parts ih =>
    simp only [List.flatMap_cons, List.length_append, List.length_cons, frame, sizePrefix]
    omega

/-- A message is read back from its file exactly when its body, which is written last, is not empty. -/
theorem load_save_iff (self : Zmsg) (small : ∀ part ∈ self, Small part) :
    load (save self []) = .ok self ↔ self.body ≠ some [] := by
  have parts : ∀ part ∈ self.reverse, Small part := fun part member => small part (List.mem_reverse.mp member)
  have enough := length_frames self.reverse
  simp only [load, save_eq, List.nil_append, new, Option.toList_none]
  rw [loadLoop_whole parts (by omega), List.getLast?_reverse, List.nil_append]
  simp only [bind, Except.bind, pure, Except.pure, treverse_eq, Except.ok.injEq, body]
  by_cases empty : self.head? = some []
  · rw [if_pos empty, List.dropLast_reverse, List.reverse_reverse]
    obtain ⟨rest, rfl⟩ := List.head?_eq_some_iff.mp empty
    simp
  · rw [if_neg empty, List.reverse_reverse]
    simp [empty]

theorem load_save_request : load (save [bytes "{}", bytes "", bytes "1A2B-3C4D"] []) =
    .ok [bytes "{}", bytes "", bytes "1A2B-3C4D"] :=
  (load_save_iff [bytes "{}", bytes "", bytes "1A2B-3C4D"] (by simp [Small, bytes])).mpr (by simp [body, bytes])

/-- A file that was cut off anywhere is read without an error, and every part read is a part that was
written, or a piece of the first one that is missing. -/
theorem load_cut (self : Zmsg) (small : ∀ part ∈ self, Small part) (stop : Nat) :
    ∃ loaded, load ((save self []).take stop) = .ok loaded ∧ Cut self.reverse loaded.reverse := by
  have parts : ∀ part ∈ self.reverse, Small part := fun part member => small part (List.mem_reverse.mp member)
  obtain ⟨loaded, done, cut⟩ := loadLoop_cut parts (min stop (self.reverse.flatMap frame).length)
    (Nat.lt_succ_self _) (new none)
  refine ⟨loaded.reverse, ?_, by rwa [List.reverse_reverse]⟩
  simp only [load, save_eq, List.nil_append, List.length_take]
  rw [List.take_eq_take_min, done]
  simp [bind, Except.bind, pure, Except.pure, treverse_eq, new]

theorem load_cut_request : ∃ loaded, load ((save [bytes "{}", bytes "1A2B-3C4D"] []).take 12) = .ok loaded ∧
    Cut [bytes "1A2B-3C4D", bytes "{}"] loaded.reverse :=
  load_cut [bytes "{}", bytes "1A2B-3C4D"] (by simp [Small, bytes]) 12

end ImageServer.Zmsg
