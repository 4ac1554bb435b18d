import ImageServer.LuaString
import Mathlib.Data.List.Induction

/-! Disks, and the two helpers for slashes that every Lua program of the repository carries a
copy of. -/

namespace ImageServer

/-- What is stored under each path. -/
abbrev Disk := Bytes → Option Bytes

def slash : UInt8 := 47

def appendPathSimbol2Tail (str : Bytes) : Bytes :=
  let l := Lua.len str
  let s := Lua.sub str l l
  if s ≠ [slash] then str ++ [slash] else str

def removePathSimbolAtHead (str : Bytes) : Bytes :=
  let s := Lua.sub str 1 1
  if s = [slash] then Lua.sub str 2 (Lua.len str) else str

theorem removePathSimbolAtHead_slash (rest : Bytes) : removePathSimbolAtHead (slash :: rest) = rest := by
  have head : Lua.sub (slash :: rest) 1 1 = [slash] := by rw [Lua.sub_first]; rfl
  have tail := Lua.sub_from (slash :: rest) 1
  simp only [removePathSimbolAtHead, head, if_true]
  exact tail

theorem removePathSimbolAtHead_other {str : Bytes} (other : str.head? ≠ some slash) :
    removePathSimbolAtHead str = str := by
  have head : Lua.sub str 1 1 ≠ [slash] := by
    rw [Lua.sub_first]
    cases str with
    | nil => simp
    | cons b rest => simpa using other
  simp only [removePathSimbolAtHead, if_neg head]

/-- What is left is the text or the text after its first slash. -/
theorem removePathSimbolAtHead_cases (str : Bytes) :
    removePathSimbolAtHead str = str ∨ str = slash :: removePathSimbolAtHead str := by
  by_cases slashed : str.head? = some slash
  · obtain ⟨rest, rfl⟩ := List.head?_eq_some_iff.mp slashed
    exact Or.inr (by rw [removePathSimbolAtHead_slash])
  · exact Or.inl (removePathSimbolAtHead_other slashed)

theorem mem_appendPathSimbol2Tail {str : Bytes} {b : UInt8} (other : b ≠ slash) :
    b ∈ appendPathSimbol2Tail str ↔ b ∈ str := by
  unfold appendPathSimbol2Tail
  simp only
  split <;> simp [other]

theorem mem_removePathSimbolAtHead {str : Bytes} {b : UInt8} (other : b ≠ slash) :
    b ∈ removePathSimbolAtHead str ↔ b ∈ str := by
  rcases removePathSimbolAtHead_cases str with same | slashed
  · rw [same]
  · rw [slashed]
    simp [other, removePathSimbolAtHead_slash]

/-- A folder name carries its slash. -/
def IsFolder (str : Bytes) : Prop := ∃ start, str = start ++ [slash]

theorem sub_last_eq (start : Bytes) (b : UInt8) :
    Lua.sub (start ++ [b]) (Lua.len (start ++ [b])) (Lua.len (start ++ [b])) = [b] := by
  rw [Lua.sub_last]
  simp

theorem appendPathSimbol2Tail_folder (start : Bytes) :
    appendPathSimbol2Tail (start ++ [slash]) = start ++ [slash] := by
  simp only [appendPathSimbol2Tail, sub_last_eq]
  simp

theorem appendPathSimbol2Tail_other (start : Bytes) {b : UInt8} (other : b ≠ slash) :
    appendPathSimbol2Tail (start ++ [b]) = start ++ [b, slash] := by
  simp only [appendPathSimbol2Tail, sub_last_eq]
  simp [other]

theorem appendPathSimbol2Tail_nil : appendPathSimbol2Tail [] = [slash] := by decide

theorem appendPathSimbol2Tail_isFolder (str : Bytes) : IsFolder (appendPathSimbol2Tail str) := by
  induction str using List.reverseRecOn with
  | nil => exact ⟨[], appendPathSimbol2Tail_nil⟩
  | append_singleton start b _ =>
    by_cases slashed : b = slash
    · subst b
      exact ⟨start, appendPathSimbol2Tail_folder start⟩
    · exact ⟨start ++ [b], by rw [appendPathSimbol2Tail_other start slashed]; simp⟩

theorem IsFolder.ne_nil {str : Bytes} (folder : IsFolder str) : str ≠ [] := by
  obtain ⟨start, rfl⟩ := folder
  simp

end ImageServer
