import ImageServer.LuaString

/-! UTF-8 text. Decoding takes any bytes: what is no text becomes a replacement character, and
the byte that was not expected is read afresh. An ASCII byte is never swallowed, and encoded text
reads back after anything. -/

namespace ImageServer.Utf8

/-- A character that is not complete: how many bytes it still needs, its bits so far, and the
range of its next byte. -/
structure Pending where
  needed : Nat
  point : Nat
  low : Nat
  high : Nat
  above_ascii : 128 ≤ low
  below_first : high ≤ 191

def replacement : Char := Char.ofNat 0xFFFD

/-- What is left of an incomplete character. -/
def finish : Option Pending → List Char
  | none => []
  | some _ => [replacement]

def continuing (needed point : Nat) : Pending := ⟨needed, point, 128, 191, by omega, by omega⟩

/-- The first byte of a character. -/
def first (b : UInt8) : List Char × Option Pending :=
  let n := b.toNat
  if n < 128 then ([Char.ofNat n], none)
  else if 0xC2 ≤ n ∧ n ≤ 0xDF then ([], some (continuing 1 (n - 0xC0)))
  else if n = 0xE0 then ([], some ⟨2, 0, 0xA0, 191, by omega, by omega⟩)
  else if n = 0xED then ([], some ⟨2, 13, 128, 0x9F, by omega, by omega⟩)
  else if 0xE1 ≤ n ∧ n ≤ 0xEF then ([], some (continuing 2 (n - 0xE0)))
  else if n = 0xF0 then ([], some ⟨3, 0, 0x90, 191, by omega, by omega⟩)
  else if n = 0xF4 then ([], some ⟨3, 4, 128, 0x8F, by omega, by omega⟩)
  else if 0xF1 ≤ n ∧ n ≤ 0xF3 then ([], some (continuing 3 (n - 0xF0)))
  else ([replacement], none)

def next (pending : Option Pending) (b : UInt8) : List Char × Option Pending :=
  match pending with
  | none => first b
  | some character =>
    if character.low ≤ b.toNat ∧ b.toNat ≤ character.high then
      let point := character.point * 64 + b.toNat % 64
      if character.needed = 1 then ([Char.ofNat point], none)
      else ([], some (continuing (character.needed - 1) point))
    else (replacement :: (first b).1, (first b).2)

def decodeFrom (pending : Option Pending) : List UInt8 → List Char
  | [] => finish pending
  | b :: rest => (next pending b).1 ++ decodeFrom (next pending b).2 rest

theorem decodeFrom_cons (pending : Option Pending) (b : UInt8) (rest : List UInt8) :
    decodeFrom pending (b :: rest) = (next pending b).1 ++ decodeFrom (next pending b).2 rest := rfl

def decode (data : List UInt8) : List Char := decodeFrom none data

def encode (text : List Char) : List UInt8 := text.flatMap String.utf8EncodeChar

@[simp] theorem encode_nil : encode [] = [] := rfl

@[simp] theorem encode_cons (c : Char) (text : List Char) :
    encode (c :: text) = String.utf8EncodeChar c ++ encode text := List.flatMap_cons

@[simp] theorem encode_append (first second : List Char) : encode (first ++ second) = encode first ++ encode second :=
  List.flatMap_append

theorem encodeChar_ascii {c : Char} (ascii : c.toNat < 128) : String.utf8EncodeChar c = [UInt8.ofNat c.toNat] := by
  have small : c.val.toNat ≤ 127 := Nat.le_of_lt_succ ascii
  exact if_pos small

theorem encode_ascii {text : List Char} (ascii : ∀ c ∈ text, c.toNat < 128) :
    encode text = text.map fun c => UInt8.ofNat c.toNat := by
  induction text with
  | nil => rfl
  | cons c text ih =>
    have rest := ih fun d member => ascii d (List.mem_cons_of_mem c member)
    rw [encode_cons, encodeChar_ascii (ascii c List.mem_cons_self), rest]
    rfl

theorem ascii_of_encodeChar {c : Char} {b : UInt8} (ascii : b.toNat < 128) (member : b ∈ String.utf8EncodeChar c) :
    c = Char.ofNat b.toNat := by
  have whole : Char.ofNat c.val.toNat = c := Char.ofNat_toNat c
  unfold String.utf8EncodeChar at member
  dsimp only at member
  generalize c.val.toNat = n at whole member
  have byte (m : Nat) (high : 128 ≤ m) (small : m < 256) : b ≠ UInt8.ofNat m := by
    rintro rfl
    rw [UInt8.toNat_ofNat'] at ascii
    omega
  split at member
  next one =>
    obtain rfl := List.mem_singleton.mp member
    rw [UInt8.toNat_ofNat', Nat.mod_eq_of_lt (by omega), whole]
  split at member
  next =>
    simp only [List.mem_cons, List.not_mem_nil, or_false, byte _ (show 128 ≤ n / 64 % 32 + 192 by omega) (by omega),
      byte _ (show 128 ≤ n % 64 + 128 by omega) (by omega)] at member
  split at member
  next =>
    simp only [List.mem_cons, List.not_mem_nil, or_false, byte _ (show 128 ≤ n / 4096 % 16 + 224 by omega) (by omega),
      byte _ (show 128 ≤ n / 64 % 64 + 128 by omega) (by omega),
      byte _ (show 128 ≤ n % 64 + 128 by omega) (by omega)] at member
  next =>
    simp only [List.mem_cons, List.not_mem_nil, or_false, byte _ (show 128 ≤ n / 262144 % 8 + 240 by omega) (by omega),
      byte _ (show 128 ≤ n / 4096 % 64 + 128 by omega) (by omega),
      byte _ (show 128 ≤ n / 64 % 64 + 128 by omega) (by omega),
      byte _ (show 128 ≤ n % 64 + 128 by omega) (by omega)] at member

theorem mem_encode {text : List Char} {b : UInt8} (ascii : b.toNat < 128) (member : b ∈ encode text) :
    Char.ofNat b.toNat ∈ text := by
  induction text with
  | nil => cases member
  | cons c text ih =>
    rw [encode_cons] at member
    rcases List.mem_append.mp member with here | later
    · obtain rfl : c = Char.ofNat b.toNat := ascii_of_encodeChar ascii here
      exact List.mem_cons_self
    · exact List.mem_cons_of_mem c (ih later)

/-- A byte that goes on with no character is read as the first of one. -/
theorem next_fresh (pending : Option Pending) {b : UInt8} (fresh : b.toNat < 128 ∨ 191 < b.toNat) :
    next pending b = (finish pending ++ (first b).1, (first b).2) := by
  cases pending with
  | none => rfl
  | some character =>
    have above := character.above_ascii
    have below := character.below_first
    have outside : ¬ (character.low ≤ b.toNat ∧ b.toNat ≤ character.high) := by omega
    rw [next, if_neg outside]
    rfl

theorem first_ascii {b : UInt8} (ascii : b.toNat < 128) : first b = ([Char.ofNat b.toNat], none) := by
  simp only [first, if_pos ascii]

theorem decodeFrom_ascii (pending : Option Pending) (before after : List UInt8) {b : UInt8} (ascii : b.toNat < 128) :
    decodeFrom pending (before ++ b :: after) = decodeFrom pending before ++ Char.ofNat b.toNat :: decode after := by
  induction before generalizing pending with
  | nil =>
    rw [List.nil_append, decodeFrom_cons, next_fresh pending (Or.inl ascii), first_ascii ascii]
    simp [decodeFrom, decode]
  | cons c before ih => rw [List.cons_append, decodeFrom_cons, ih, decodeFrom_cons, List.append_assoc]

theorem decode_ascii (before after : List UInt8) {b : UInt8} (ascii : b.toNat < 128) :
    decode (before ++ b :: after) = decode before ++ Char.ofNat b.toNat :: decode after :=
  decodeFrom_ascii none before after ascii

theorem next_last {character : Pending} {b : UInt8} (inside : character.low ≤ b.toNat ∧ b.toNat ≤ character.high)
    (last : character.needed = 1) :
    next (some character) b = ([Char.ofNat (character.point * 64 + b.toNat % 64)], none) := by
  simp only [next, if_pos inside, if_pos last]

theorem next_more {character : Pending} {b : UInt8} (inside : character.low ≤ b.toNat ∧ b.toNat ≤ character.high)
    (more : character.needed ≠ 1) :
    next (some character) b =
      ([], some (continuing (character.needed - 1) (character.point * 64 + b.toNat % 64))) := by
  simp only [next, if_pos inside, if_neg more]

theorem first_two {b : UInt8} (range : 0xC2 ≤ b.toNat ∧ b.toNat ≤ 0xDF) :
    first b = ([], some (continuing 1 (b.toNat - 0xC0))) := by
  have large : ¬ b.toNat < 128 := by omega
  simp only [first, if_neg large, if_pos range]

theorem first_three {b : UInt8} (range : 0xE0 ≤ b.toNat ∧ b.toNat ≤ 0xEF) :
    ∃ character, first b = ([], some character) ∧ character.needed = 2 ∧ character.point = b.toNat - 0xE0 ∧
      character.low = (if b.toNat = 0xE0 then 0xA0 else 128) ∧ character.high = if b.toNat = 0xED then 0x9F else 191 := by
  have large : ¬ b.toNat < 128 := by omega
  have above : ¬ (0xC2 ≤ b.toNat ∧ b.toNat ≤ 0xDF) := by omega
  by_cases low : b.toNat = 0xE0
  · refine ⟨⟨2, 0, 0xA0, 191, by omega, by omega⟩, ?_, rfl, by simp [low], by simp [low], by simp [low]⟩
    simp only [first, if_neg large, if_neg above, if_pos low]
  by_cases high : b.toNat = 0xED
  · refine ⟨⟨2, 13, 128, 0x9F, by omega, by omega⟩, ?_, rfl, by simp [high], by simp [high], by simp [high]⟩
    simp only [first, if_neg large, if_neg above, if_neg low, if_pos high]
  · refine ⟨continuing 2 (b.toNat - 0xE0), ?_, rfl, rfl, by simp [low, continuing], by simp [high, continuing]⟩
    have inner : 0xE1 ≤ b.toNat ∧ b.toNat ≤ 0xEF := by omega
    simp only [first, if_neg large, if_neg above, if_neg low, if_neg high, if_pos inner]

theorem first_four {b : UInt8} (range : 0xF0 ≤ b.toNat ∧ b.toNat ≤ 0xF4) :
    ∃ character, first b = ([], some character) ∧ character.needed = 3 ∧ character.point = b.toNat - 0xF0 ∧
      character.low = (if b.toNat = 0xF0 then 0x90 else 128) ∧ character.high = if b.toNat = 0xF4 then 0x8F else 191 := by
  have large : ¬ b.toNat < 128 := by omega
  have above : ¬ (0xC2 ≤ b.toNat ∧ b.toNat ≤ 0xDF) := by omega
  have notE0 : b.toNat ≠ 0xE0 := by omega
  have notED : b.toNat ≠ 0xED := by omega
  have aboveThree : ¬ (0xE1 ≤ b.toNat ∧ b.toNat ≤ 0xEF) := by omega
  by_cases low : b.toNat = 0xF0
  · refine ⟨⟨3, 0, 0x90, 191, by omega, by omega⟩, ?_, rfl, by simp [low], by simp [low], by simp [low]⟩
    simp only [first, if_neg large, if_neg above, if_neg notE0, if_neg notED, if_neg aboveThree, if_pos low]
  by_cases high : b.toNat = 0xF4
  · refine ⟨⟨3, 4, 128, 0x8F, by omega, by omega⟩, ?_, rfl, by simp [high], by simp [high], by simp [high]⟩
    simp only [first, if_neg large, if_neg above, if_neg notE0, if_neg notED, if_neg aboveThree, if_neg low, if_pos high]
  · refine ⟨continuing 3 (b.toNat - 0xF0), ?_, rfl, rfl, by simp [low, continuing], by simp [high, continuing]⟩
    have inner : 0xF1 ≤ b.toNat ∧ b.toNat ≤ 0xF3 := by omega
    simp only [first, if_neg large, if_neg above, if_neg notE0, if_neg notED, if_neg aboveThree, if_neg low,
      if_neg high, if_pos inner]

/-- What may go on with a character. -/
def Continues (b : UInt8) : Prop := 128 ≤ b.toNat ∧ b.toNat ≤ 191

theorem next_continuing {needed point : Nat} {b : UInt8} (continues : Continues b) :
    next (some (continuing needed point)) b =
      if needed = 1 then ([Char.ofNat (point * 64 + b.toNat % 64)], none)
      else ([], some (continuing (needed - 1) (point * 64 + b.toNat % 64))) := by
  split
  next last => exact next_last continues last
  next more => exact next_more continues more

theorem decodeFrom_two (pending : Option Pending) {b c : UInt8} (rest : List UInt8)
    (range : 0xC2 ≤ b.toNat ∧ b.toNat ≤ 0xDF) (second : Continues c) :
    decodeFrom pending (b :: c :: rest) =
      finish pending ++ Char.ofNat ((b.toNat - 0xC0) * 64 + c.toNat % 64) :: decode rest := by
  rw [decodeFrom_cons, next_fresh pending (by omega), first_two range, decodeFrom_cons, next_continuing second]
  simp [decode]

theorem decodeFrom_three (pending : Option Pending) {b c d : UInt8} (rest : List UInt8)
    (range : 0xE0 ≤ b.toNat ∧ b.toNat ≤ 0xEF) (second : Continues c) (third : Continues d)
    (low : b.toNat = 0xE0 → 0xA0 ≤ c.toNat) (high : b.toNat = 0xED → c.toNat ≤ 0x9F) :
    decodeFrom pending (b :: c :: d :: rest) =
      finish pending ++ Char.ofNat (((b.toNat - 0xE0) * 64 + c.toNat % 64) * 64 + d.toNat % 64) :: decode rest := by
  obtain ⟨character, begins, needed, point, least, most⟩ := first_three range
  have inside : character.low ≤ c.toNat ∧ c.toNat ≤ character.high := by
    obtain ⟨above, below⟩ := second
    rw [least, most]
    split <;> split <;> omega
  rw [decodeFrom_cons, next_fresh pending (by omega), begins, decodeFrom_cons, next_more inside (by omega), needed, point,
    decodeFrom_cons, next_continuing third]
  simp [decode]

theorem decodeFrom_four (pending : Option Pending) {b c d e : UInt8} (rest : List UInt8)
    (range : 0xF0 ≤ b.toNat ∧ b.toNat ≤ 0xF4) (second : Continues c) (third : Continues d) (fourth : Continues e)
    (low : b.toNat = 0xF0 → 0x90 ≤ c.toNat) (high : b.toNat = 0xF4 → c.toNat ≤ 0x8F) :
    decodeFrom pending (b :: c :: d :: e :: rest) =
      finish pending ++ Char.ofNat ((((b.toNat - 0xF0) * 64 + c.toNat % 64) * 64 + d.toNat % 64) * 64 + e.toNat % 64) ::
        decode rest := by
  obtain ⟨character, begins, needed, point, least, most⟩ := first_four range
  have inside : character.low ≤ c.toNat ∧ c.toNat ≤ character.high := by
    obtain ⟨above, below⟩ := second
    rw [least, most]
    split <;> split <;> omega
  rw [decodeFrom_cons, next_fresh pending (by omega), begins, decodeFrom_cons, next_more inside (by omega), needed, point,
    decodeFrom_cons, next_continuing third, if_neg (by decide), decodeFrom_cons, next_continuing fourth]
  simp [decode]

theorem toNat_ofNat_small {n : Nat} (small : n < 256) : (UInt8.ofNat n).toNat = n := by
  rw [UInt8.toNat_ofNat']
  exact Nat.mod_eq_of_lt small

theorem continues_ofNat (n : Nat) : Continues (UInt8.ofNat (n % 64 + 128)) := by
  unfold Continues
  rw [toNat_ofNat_small (by omega)]
  omega

theorem decodeFrom_encodeChar (pending : Option Pending) (c : Char) (after : List UInt8) :
    decodeFrom pending (String.utf8EncodeChar c ++ after) = finish pending ++ c :: decode after := by
  have valid : c.val.toNat < 0xD800 ∨ 0xDFFF < c.val.toNat ∧ c.val.toNat < 0x110000 := c.valid
  have whole : Char.ofNat c.val.toNat = c := Char.ofNat_toNat c
  have tail (n : Nat) : (UInt8.ofNat (n % 64 + 128)).toNat = n % 64 + 128 := toNat_ofNat_small (by omega)
  unfold String.utf8EncodeChar
  dsimp only
  generalize c.val.toNat = n at valid whole ⊢
  split
  next one =>
    have byte : (UInt8.ofNat n).toNat = n := toNat_ofNat_small (by omega)
    rw [List.singleton_append, decodeFrom_cons, next_fresh pending (by omega), first_ascii (by omega), byte, whole]
    simp [decode]
  split
  next two =>
    have byte : (UInt8.ofNat (n / 64 % 32 + 192)).toNat = n / 64 + 192 := by
      rw [toNat_ofNat_small (by omega)]
      omega
    have point : (n / 64 + 192 - 192) * 64 + (n % 64 + 128) % 64 = n := by omega
    rw [List.cons_append, List.singleton_append, decodeFrom_two pending after (by omega) (continues_ofNat n), byte, tail,
      point, whole]
  split
  next three =>
    have byte : (UInt8.ofNat (n / 4096 % 16 + 224)).toNat = n / 4096 + 224 := by
      rw [toNat_ofNat_small (by omega)]
      omega
    have second := tail (n / 64)
    have point : ((n / 4096 + 224 - 224) * 64 + (n / 64 % 64 + 128) % 64) * 64 + (n % 64 + 128) % 64 = n := by omega
    rw [List.cons_append, List.cons_append, List.singleton_append,
      decodeFrom_three pending after (by omega) (continues_ofNat _) (continues_ofNat n) (by omega) (by omega), byte, tail,
      tail, point, whole]
  next four =>
    have byte : (UInt8.ofNat (n / 262144 % 8 + 240)).toNat = n / 262144 + 240 := by
      rw [toNat_ofNat_small (by omega)]
      omega
    have second := tail (n / 4096)
    have point : (((n / 262144 + 240 - 240) * 64 + (n / 4096 % 64 + 128) % 64) * 64 + (n / 64 % 64 + 128) % 64) * 64 +
        (n % 64 + 128) % 64 = n := by omega
    rw [List.cons_append, List.cons_append, List.cons_append, List.singleton_append,
      decodeFrom_four pending after (by omega) (continues_ofNat _) (continues_ofNat _) (continues_ofNat n) (by omega)
        (by omega), byte, tail, tail, tail, point, whole]

/-- Encoded text reads back, whatever stands before it. -/
theorem decodeFrom_encode (pending : Option Pending) (before : List UInt8) (text : List Char) :
    decodeFrom pending (before ++ encode text) = decodeFrom pending before ++ text := by
  induction before generalizing pending with
  | nil =>
    induction text generalizing pending with
    | nil => rw [encode_nil, List.append_nil, List.append_nil]
    | cons c text ih =>
      rw [List.nil_append, encode_cons, decodeFrom_encodeChar, decode, ← List.nil_append (encode text), ih]
      rfl
  | cons b before ih => rw [List.cons_append, decodeFrom_cons, ih, decodeFrom_cons, List.append_assoc]

theorem decode_append_encode (before : List UInt8) (text : List Char) :
    decode (before ++ encode text) = decode before ++ text :=
  decodeFrom_encode none before text

@[simp] theorem decode_encode (text : List Char) : decode (encode text) = text :=
  decode_append_encode [] text

/-- The bits so far are those of no ASCII character. -/
structure Wide (character : Pending) : Prop where
  last : character.needed = 1 → 2 ≤ character.point
  bits : 2 ≤ character.point * 64 + (character.low - 128)

theorem first_wide {b : UInt8} {character : Pending} (begins : (first b).2 = some character) : Wide character := by
  unfold first at begins
  dsimp only at begins
  split at begins
  · cases begins
  split at begins
  · obtain rfl := Option.some.inj begins
    constructor <;> simp only [continuing] <;> omega
  split at begins
  · obtain rfl := Option.some.inj begins
    constructor <;> simp
  split at begins
  · obtain rfl := Option.some.inj begins
    constructor <;> simp
  split at begins
  · obtain rfl := Option.some.inj begins
    constructor <;> simp only [continuing] <;> omega
  split at begins
  · obtain rfl := Option.some.inj begins
    constructor <;> simp
  split at begins
  · obtain rfl := Option.some.inj begins
    constructor <;> simp
  split at begins
  · obtain rfl := Option.some.inj begins
    constructor <;> simp only [continuing] <;> omega
  · cases begins

theorem next_wide {pending : Option Pending} {b : UInt8} (wide : ∀ character, pending = some character → Wide character)
    {later : Pending} (goes : (next pending b).2 = some later) : Wide later := by
  cases pending with
  | none => exact first_wide goes
  | some character =>
    have bits := (wide character rfl).bits
    have below := character.below_first
    have above := character.above_ascii
    unfold next at goes
    dsimp only at goes
    split at goes
    next inside =>
      split at goes
      · cases goes
      · obtain rfl := Option.some.inj goes
        constructor <;> simp only [continuing] <;> omega
    next => exact first_wide goes

theorem ofNat_eq_mark {n : Nat} {mark : UInt8} (some : mark ≠ 0) (ascii : mark.toNat < 128)
    (same : Char.ofNat mark.toNat = Char.ofNat n) : n = mark.toNat := by
  have code (m : Nat) : (Char.ofNat m).toNat = if m.isValidChar then m else 0 := by
    by_cases valid : m.isValidChar
    · rw [Char.ofNat, dif_pos valid, if_pos valid]
      rfl
    · rw [Char.ofNat, dif_neg valid, if_neg valid]
      rfl
  have codes := congrArg Char.toNat same
  have valid : mark.toNat.isValidChar := Or.inl (by omega)
  have nonzero : mark.toNat ≠ 0 := fun zero => some (UInt8.toNat_inj.mp zero)
  rw [code, if_pos valid, code] at codes
  split at codes
  · exact codes.symm
  · exact absurd codes nonzero

theorem first_mark {b mark : UInt8} (some : mark ≠ 0) (ascii : mark.toNat < 128)
    (member : Char.ofNat mark.toNat ∈ (first b).1) : b = mark := by
  have other : Char.ofNat mark.toNat ≠ replacement := by
    intro same
    have value := ofNat_eq_mark some ascii same
    omega
  unfold first at member
  dsimp only at member
  split at member
  · exact UInt8.toNat_inj.mp (ofNat_eq_mark some ascii (List.mem_singleton.mp member))
  · repeat' split at member
    all_goals simp [other] at member

theorem next_mark {pending : Option Pending} {b mark : UInt8} (wide : ∀ character, pending = some character → Wide character)
    (some : mark ≠ 0) (ascii : mark.toNat < 128) (member : Char.ofNat mark.toNat ∈ (next pending b).1) : b = mark := by
  cases pending with
  | none => exact first_mark some ascii member
  | some character =>
    have last := (wide character rfl).last
    unfold next at member
    dsimp only at member
    split at member
    next inside =>
      split at member
      next ends =>
        have value := ofNat_eq_mark some ascii (List.mem_singleton.mp member)
        have point := last ends
        omega
      next => cases member
    next =>
      rcases List.mem_cons.mp member with same | member
      · have value := ofNat_eq_mark some ascii same
        omega
      · exact first_mark some ascii member

theorem decodeFrom_mark {pending : Option Pending} {data : List UInt8} {mark : UInt8}
    (wide : ∀ character, pending = some character → Wide character) (some : mark ≠ 0) (ascii : mark.toNat < 128)
    (member : Char.ofNat mark.toNat ∈ decodeFrom pending data) : mark ∈ data := by
  induction data generalizing pending with
  | nil =>
    cases pending with
    | none => cases member
    | some character =>
      have value := ofNat_eq_mark some ascii (List.mem_singleton.mp member)
      omega
  | cons b data ih =>
    rw [decodeFrom_cons] at member
    rcases List.mem_append.mp member with here | later
    · rw [next_mark wide some ascii here]
      exact List.mem_cons_self
    · exact List.mem_cons_of_mem b (ih (fun _ => next_wide wide) later)

theorem mem_decode {data : List UInt8} {mark : UInt8} (some : mark ≠ 0) (ascii : mark.toNat < 128) :
    Char.ofNat mark.toNat ∈ decode data ↔ mark ∈ data := by
  constructor
  · exact decodeFrom_mark (fun _ absent => nomatch absent) some ascii
  · intro member
    obtain ⟨before, after, rfl⟩ := List.append_of_mem member
    rw [decode_ascii before after ascii]
    simp

end ImageServer.Utf8
