import ImageServer.LuaString
import Mathlib.Logic.Equiv.Defs

/-! A block cipher applied block by block, with the padding that says how long it is. Nothing
ties a block to its place or to its neighbours. -/

namespace ImageServer.Ecb

abbrev Block := { data : Bytes // data.length = 16 }

def flatten (blocks : List Block) : Bytes := blocks.flatMap Subtype.val

@[simp] theorem flatten_nil : flatten [] = [] := rfl

@[simp] theorem flatten_cons (block : Block) (blocks : List Block) :
    flatten (block :: blocks) = block.val ++ flatten blocks := List.flatMap_cons

theorem length_flatten (blocks : List Block) : (flatten blocks).length = 16 * blocks.length := by
  induction blocks with
  | nil => rfl
  | cons block blocks ih =>
    rw [flatten_cons, List.length_append, block.property, ih, List.length_cons]
    omega

theorem flatten_injective : Function.Injective flatten := by
  intro first second same
  have lengths := congrArg List.length same
  rw [length_flatten, length_flatten] at lengths
  induction first generalizing second with
  | nil =>
    cases second with
    | nil => rfl
    | cons block blocks =>
      rw [List.length_nil, List.length_cons] at lengths
      omega
  | cons block blocks ih =>
    cases second with
    | nil =>
      rw [List.length_nil, List.length_cons] at lengths
      omega
    | cons other others =>
      rw [flatten_cons, flatten_cons] at same
      obtain ⟨head, tail⟩ := List.append_inj same (by rw [block.property, other.property])
      rw [Subtype.ext head, ih tail (by rw [← length_flatten, ← length_flatten, tail])]

/-- The blocks of data of a whole number of them. -/
def cut : (count : Nat) → (data : Bytes) → data.length = 16 * count → List Block
  | 0, _, _ => []
  | count + 1, data, whole =>
    ⟨data.take 16, by rw [List.length_take]; omega⟩ ::
      cut count (data.drop 16) (by rw [List.length_drop]; omega)

def blocksOf (data : Bytes) : Option (List Block) :=
  if whole : 16 ∣ data.length then some (cut (data.length / 16) data (Nat.mul_div_cancel' whole).symm) else none

theorem flatten_cut (count : Nat) (data : Bytes) (whole : data.length = 16 * count) :
    flatten (cut count data whole) = data := by
  induction count generalizing data with
  | zero => exact (List.eq_nil_of_length_eq_zero whole).symm
  | succ count ih => rw [cut, flatten_cons, ih, List.take_append_drop]

theorem blocksOf_eq_some {data : Bytes} {blocks : List Block} : blocksOf data = some blocks ↔ data = flatten blocks := by
  constructor
  · intro done
    unfold blocksOf at done
    split at done
    · rw [← Option.some.inj done, flatten_cut]
    · cases done
  · rintro rfl
    have whole : 16 ∣ (flatten blocks).length := ⟨blocks.length, length_flatten blocks⟩
    rw [blocksOf, dif_pos whole]
    exact congrArg some (flatten_injective (flatten_cut _ _ _))

/-- As many bytes as are missing, each saying how many, and a whole block when none are. -/
def padding (length : Nat) : Bytes := List.replicate (16 - length % 16) (UInt8.ofNat (16 - length % 16))

def pad (data : Bytes) : Bytes := data ++ padding data.length

theorem length_pad (data : Bytes) : (pad data).length = 16 * (data.length / 16 + 1) := by
  rw [pad, List.length_append, padding, List.length_replicate]
  omega

def paddedBlocks (data : Bytes) : List Block := cut (data.length / 16 + 1) (pad data) (length_pad data)

theorem flatten_paddedBlocks (data : Bytes) : flatten (paddedBlocks data) = pad data := flatten_cut _ _ _

/-- The last byte says how many there are to take off, and they all have to say so. -/
def unpad (data : Bytes) : Option Bytes :=
  match data.getLast? with
  | none => none
  | some last =>
    let length := last.toNat
    if 1 ≤ length ∧ length ≤ 16 ∧ length ≤ data.length ∧ data.drop (data.length - length) = List.replicate length last then
      some (data.take (data.length - length))
    else none

theorem unpad_some {data plain : Bytes} (done : unpad data = some plain) :
    ∃ last : UInt8, 1 ≤ last.toNat ∧ last.toNat ≤ 16 ∧ data = plain ++ List.replicate last.toNat last := by
  unfold unpad at done
  split at done
  next => cases done
  next last _ =>
    dsimp only at done
    split at done
    next valid =>
      obtain ⟨some, small, -, ends⟩ := valid
      refine ⟨last, some, small, ?_⟩
      rw [← Option.some.inj done, ← ends, List.take_append_drop]
    next => cases done

theorem unpad_append {plain : Bytes} {last : UInt8} (some : 1 ≤ last.toNat) (small : last.toNat ≤ 16) :
    unpad (plain ++ List.replicate last.toNat last) = .some plain := by
  have ends : (plain ++ List.replicate last.toNat last).getLast? = .some last := by
    obtain ⟨count, shape⟩ : ∃ count, last.toNat = count + 1 := ⟨last.toNat - 1, by omega⟩
    rw [shape, List.replicate_succ', ← List.append_assoc, List.getLast?_concat]
  have length : (plain ++ List.replicate last.toNat last).length - last.toNat = plain.length := by simp
  rw [unpad, ends]
  dsimp only
  rw [length, List.drop_left, List.take_left, if_pos ⟨some, small, by simp, rfl⟩]

theorem unpad_pad (data : Bytes) : unpad (pad data) = some data := by
  have count : (UInt8.ofNat (16 - data.length % 16)).toNat = 16 - data.length % 16 := by
    rw [UInt8.toNat_ofNat']
    omega
  have done := @unpad_append data (UInt8.ofNat (16 - data.length % 16)) (by omega) (by omega)
  rwa [count] at done

variable (cipher : Equiv.Perm Block)

def encrypt (data : Bytes) : Bytes := flatten ((paddedBlocks data).map cipher)

def decrypt (data : Bytes) : Option Bytes :=
  (blocksOf data).bind fun blocks => unpad (flatten (blocks.map cipher.symm))

theorem decrypt_flatten (blocks : List Block) :
    decrypt cipher (flatten blocks) = unpad (flatten (blocks.map cipher.symm)) := by
  rw [decrypt, blocksOf_eq_some.mpr rfl, Option.bind_some]

theorem decrypt_encrypt (data : Bytes) : decrypt cipher (encrypt cipher data) = some data := by
  have back : ((paddedBlocks data).map cipher).map cipher.symm = paddedBlocks data := by simp
  rw [encrypt, decrypt_flatten, back, flatten_paddedBlocks, unpad_pad]

/-- The place of a byte in padded data decides its block. -/
theorem mem_flatten_split {blocks : List Block} {before after : Bytes} {mark : UInt8}
    (shape : flatten blocks = before ++ mark :: after) :
    ∃ block ∈ blocks, ∃ front near far back, before = front ++ near ∧ after = far ++ back ∧
      16 ∣ front.length ∧ block.val = near ++ mark :: far := by
  induction blocks generalizing before with
  | nil => cases before <;> cases shape
  | cons block blocks ih =>
    rw [flatten_cons] at shape
    rcases List.append_eq_append_iff.mp shape with ⟨between, rfl, tail⟩ | ⟨between, split, tail⟩
    · obtain ⟨other, member, front, near, far, back, rfl, rfl, whole, inside⟩ := ih tail
      refine ⟨other, List.mem_cons_of_mem block member, block.val ++ front, near, far, back, ?_, rfl, ?_, inside⟩
      · rw [List.append_assoc]
      · rw [List.length_append, block.property]
        omega
    · cases between with
      | nil =>
        obtain ⟨other, member, front, near, far, back, empty, rfl, whole, inside⟩ := @ih [] tail.symm
        obtain ⟨rfl, rfl⟩ := List.append_eq_nil_iff.mp empty.symm
        refine ⟨other, List.mem_cons_of_mem block member, block.val, [], far, back, ?_, rfl, ?_, inside⟩
        · rw [split, List.append_nil, List.append_nil]
        · exact ⟨1, block.property⟩
      | cons b between =>
        obtain ⟨rfl, rfl⟩ := List.cons.inj tail
        exact ⟨block, List.mem_cons_self, [], before, between, flatten blocks, rfl, rfl, Nat.dvd_zero 16, split⟩

/-- A block of padded data, with what stands before it and after it. -/
theorem mem_flatten_block {blocks : List Block} {block : Block} (member : block ∈ blocks) :
    ∃ front back, flatten blocks = front ++ (block.val ++ back) ∧ 16 ∣ front.length := by
  obtain ⟨first, second, rfl⟩ := List.append_of_mem member
  refine ⟨flatten first, flatten second, ?_, ⟨first.length, length_flatten first⟩⟩
  simp [flatten]

end ImageServer.Ecb
