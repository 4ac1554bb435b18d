import Mathlib.Data.List.Basic
import Mathlib.Tactic.Common

/-! Lua strings: sequences of bytes, counted from one. -/

namespace ImageServer

abbrev Bytes := List UInt8

instance bytesLawful : LawfulBEq Bytes := List.instLawfulBEq

def bytes (text : String) : Bytes := text.toList.map fun character => UInt8.ofNat character.toNat

namespace Lua

def len (text : Bytes) : Int := text.length

/-- `string.sub`: a negative index counts from the end, and both ends are then cut to
the string. -/
def sub (text : Bytes) (first last : Int) : Bytes :=
  let start := if first < 0 then len text + first + 1 else first
  let stop := if last < 0 then len text + last + 1 else last
  (text.take stop.toNat).drop (start.toNat - 1)

theorem sub_upto (text : Bytes) (stop : Nat) : sub text 0 stop = text.take stop := by
  have positive : ¬ (stop : Int) < 0 := by omega
  simp [sub, positive]

theorem sub_first (text : Bytes) : sub text 1 1 = text.take 1 := by
  simp [sub]

theorem sub_from (text : Bytes) (start : Nat) : sub text (start + 1 : Nat) (len text) = text.drop start := by
  have first : ¬ ((start + 1 : Nat) : Int) < 0 := by omega
  have last : ¬ len text < 0 := by simp [len]
  simp only [sub, first, last, if_false]
  simp [len]

theorem sub_last (text : Bytes) : sub text (len text) (len text) = text.drop (text.length - 1) := by
  have positive : ¬ len text < 0 := by simp [len]
  simp only [sub, positive, if_false]
  simp [len]

theorem sub_last_four (text : Bytes) (long : 3 ≤ text.length) :
    sub text (len text - 3) (len text) = text.drop (text.length - 4) := by
  have first : ¬ len text - 3 < 0 := by simp only [len]; omega
  have last : ¬ len text < 0 := by simp [len]
  have start : (len text - 3).toNat - 1 = text.length - 4 := by simp only [len]; omega
  simp only [sub, first, last, if_false, start]
  simp [len]

end Lua
end ImageServer
