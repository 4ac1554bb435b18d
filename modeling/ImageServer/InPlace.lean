import Mathlib.Data.List.Basic
import Mathlib.Tactic.Common

/-! A file that is written in place, possibly by several writers at once: each writes at its
own offset, and what lies beyond the end is filled with zeros. -/

namespace ImageServer.InPlace

variable {α : Type}

/-- Writing nothing does not move the end. -/
def writeAt [Zero α] (content : List α) (offset : Nat) (chunk : List α) : List α :=
  if chunk.isEmpty then content
  else content.take offset ++ List.replicate (offset - content.length) 0 ++ chunk ++
    content.drop (offset + chunk.length)

/-- The next elements of a whole text. -/
def slice (whole : List α) (offset count : Nat) : List α := (whole.drop offset).take count

/-- The two texts have the same first elements. -/
def Agrees (content whole : List α) (done : Nat) : Prop := ∀ i < done, content[i]? = whole[i]?

theorem slice_within (whole : List α) {offset : Nat} (inside : offset ≤ whole.length) (count : Nat) :
    offset + (slice whole offset count).length ≤ whole.length := by
  simp only [slice, List.length_take, List.length_drop]
  omega

theorem getElem?_slice (whole : List α) {offset count i : Nat} (inside : i < (slice whole offset count).length) :
    (slice whole offset count)[i]? = whole[offset + i]? := by
  simp only [slice, List.length_take] at inside
  rw [slice, List.getElem?_take_of_lt (by omega), List.getElem?_drop]

theorem Agrees.complete {content whole : List α} (agrees : Agrees content whole whole.length)
    (short : content.length ≤ whole.length) : content = whole := by
  apply List.ext_getElem?
  intro i
  by_cases inside : i < whole.length
  · exact agrees i inside
  · rw [List.getElem?_eq_none (by omega), List.getElem?_eq_none (by omega)]

section
variable [Zero α]

theorem length_writeAt (content : List α) (offset : Nat) {chunk : List α} (some : chunk.isEmpty = false) :
    (writeAt content offset chunk).length = max content.length (offset + chunk.length) := by
  simp only [writeAt, some, Bool.false_eq_true, if_false, List.length_append, List.length_take, List.length_replicate,
    List.length_drop]
  omega

theorem getElem?_writeAt (content : List α) (offset : Nat) {chunk : List α} (some : chunk.isEmpty = false) (i : Nat) :
    (writeAt content offset chunk)[i]? =
      if i < offset then (if i < content.length then content[i]? else Option.some 0)
      else if i < offset + chunk.length then chunk[i - offset]? else content[i]? := by
  simp only [writeAt, some, Bool.false_eq_true, if_false]
  have begun : (content.take offset ++ List.replicate (offset - content.length) (0 : α)).length = offset := by
    simp
    omega
  rw [List.append_assoc, List.getElem?_append, begun]
  split
  next before =>
    rw [List.getElem?_append]
    simp only [List.length_take]
    split
    next here =>
      rw [List.getElem?_take_of_lt before, if_pos (by omega)]
    next beyond =>
      rw [if_neg (by omega), List.getElem?_replicate, if_pos (by omega)]
  next after =>
    rw [List.getElem?_append]
    split
    next here => rw [if_pos (by omega)]
    next beyond =>
      rw [if_neg (by omega), List.getElem?_drop]
      congr 1
      omega

/-- Writing what belongs at an offset keeps whatever was right before. -/
theorem Agrees.writeAt {content whole : List α} {done : Nat} (agrees : Agrees content whole done)
    (inside : done ≤ whole.length) (offset count : Nat) :
    Agrees (writeAt content offset (slice whole offset count)) whole done := by
  intro i small
  cases some : (slice whole offset count).isEmpty with
  | true => simpa only [InPlace.writeAt, some, if_true] using agrees i small
  | false =>
    have same := agrees i small
    have present : i < content.length := by
      by_contra absent
      rw [List.getElem?_eq_none (by omega), List.getElem?_eq_getElem (by omega)] at same
      cases same
    rw [getElem?_writeAt content offset some, if_pos present]
    split
    · exact same
    split
    · rw [getElem?_slice whole (by omega)]
      congr 1
      omega
    · exact same

/-- The writer whose own part is right has more of it right after each step. -/
theorem Agrees.advance {content whole : List α} {done : Nat} (agrees : Agrees content whole done)
    (inside : done ≤ whole.length) (count : Nat) :
    Agrees (InPlace.writeAt content done (slice whole done count)) whole
      (done + (slice whole done count).length) := by
  intro i small
  cases some : (slice whole done count).isEmpty with
  | true =>
    have empty : (slice whole done count).length = 0 := by simpa using some
    simpa only [InPlace.writeAt, some, if_true] using agrees i (by omega)
  | false =>
    by_cases before : i < done
    · exact agrees.writeAt inside done count i before
    · rw [getElem?_writeAt content done some, if_neg before, if_pos small, getElem?_slice whole (by omega)]
      congr 1
      omega

theorem length_writeAt_slice {content whole : List α} (short : content.length ≤ whole.length) {offset : Nat}
    (inside : offset ≤ whole.length) (count : Nat) :
    (writeAt content offset (slice whole offset count)).length ≤ whole.length := by
  cases some : (slice whole offset count).isEmpty with
  | true => simpa only [writeAt, some, if_true] using short
  | false =>
    have within := slice_within whole inside count
    rw [length_writeAt content offset some]
    omega

theorem writeAt_complete (whole : List α) {offset : Nat} (inside : offset ≤ whole.length) (count : Nat) :
    writeAt whole offset (slice whole offset count) = whole :=
  Agrees.complete (Agrees.writeAt (fun _ _ => rfl) (Nat.le_refl _) offset count)
    (length_writeAt_slice (Nat.le_refl _) inside count)

end
end ImageServer.InPlace
