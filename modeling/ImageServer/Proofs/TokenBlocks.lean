import ImageServer.Proofs.ReadBack
import ImageServer.Proofs.TokenScope
import ImageServer.TokenCipher

/-! What is left of the issued tokens when their blocks are put together anew. Only the block with
the bar ties a file to a time: what does not fit into it comes from other tokens. -/

namespace ImageServer.ThumbnailGate
open JavaScript

theorem encode_data (issue : Issue) :
    Utf8.encode issue.data = Utf8.encode issue.fileId ++ 124 :: Utf8.encode issue.timeStr := by
  rw [Issue.data, Utf8.encode_append, Utf8.encode_cons]
  rfl

theorem encode_timeStr (issue : Issue) :
    Utf8.encode issue.timeStr = issue.timeStr.map fun c => UInt8.ofNat c.toNat := by
  apply Utf8.encode_ascii
  intro c member
  have range := digit_range (toDigits_digits issue.time c member)
  omega

theorem timeStr_bytes {issue : Issue} {b : UInt8} (member : b ∈ Utf8.encode issue.timeStr) :
    48 ≤ b.toNat ∧ b.toNat ≤ 57 := by
  rw [encode_timeStr] at member
  obtain ⟨c, inside, rfl⟩ := List.mem_map.mp member
  have range := digit_range (toDigits_digits issue.time c inside)
  rw [UInt8.toNat_ofNat']
  omega

theorem padding_bytes {length : Nat} {b : UInt8} (member : b ∈ Ecb.padding length) : 1 ≤ b.toNat ∧ b.toNat ≤ 16 := by
  rw [List.eq_of_mem_replicate member, UInt8.toNat_ofNat']
  omega

theorem bar_of_pad {issue : Issue} {front after : Bytes} (shape : Ecb.pad (Utf8.encode issue.data) = front ++ 124 :: after) :
    Utf8.encode issue.fileId = front ∧
      Utf8.encode issue.timeStr ++ Ecb.padding (Utf8.encode issue.data).length = after := by
  have before : (124 : UInt8) ∉ Utf8.encode issue.fileId := fun member =>
    issue.plain (Utf8.mem_encode (by decide) member)
  have behind : (124 : UInt8) ∉ Utf8.encode issue.timeStr ++ Ecb.padding (Utf8.encode issue.data).length := by
    intro member
    rcases List.mem_append.mp member with digit | filler
    · exact absurd (timeStr_bytes digit).2 (by decide)
    · exact absurd (padding_bytes filler).2 (by decide)
  have spelled : Ecb.pad (Utf8.encode issue.data) =
      Utf8.encode issue.fileId ++ 124 :: (Utf8.encode issue.timeStr ++ Ecb.padding (Utf8.encode issue.data).length) := by
    rw [Ecb.pad]
    generalize Ecb.padding (Utf8.encode issue.data).length = filler
    rw [encode_data, List.append_assoc, List.cons_append]
  obtain ⟨name, -, rest⟩ := (List.append_cons_inj_of_notMem before behind).mp (spelled.symm.trans shape)
  exact ⟨name, rest⟩

theorem issued_decrypts {crypto : Crypto} {issued : Set Issue} (readable : Readable crypto issued) {issue : Issue}
    (listed : issue ∈ issued) (parse : Bytes → Except Error Url) :
    Decrypts (crypto.outside parse) (some (issue.token crypto)) issue.fileId issue.timeStr := by
  have decrypted : aesDecrypt (crypto.outside parse) (some (issue.token crypto)) password = some issue.data := by
    simp only [aesDecrypt, Crypto.outside, Crypto.decipher]
    rw [readable issue listed, Ecb.decrypt_encrypt]
    exact congrArg some (Utf8.decode_encode issue.data)
  exact (decrypts_iff issue.plain decrypted _ _).mpr ⟨mark_not_toDigits issue.time, rfl, rfl⟩

/-- The plain blocks of a token that was put together are blocks of issued data. -/
theorem recombined_plain {crypto : Crypto} {issued : Set Issue} {token : Text} (readable : Readable crypto issued)
    (recombined : Recombined crypto issued token) :
    ∃ blocks, Ecb.decrypt (crypto.aes password) (crypto.ofBase64 token) = Ecb.unpad (Ecb.flatten blocks) ∧
      ∀ block ∈ blocks, ∃ issue ∈ issued, block ∈ Ecb.paddedBlocks (Utf8.encode issue.data) := by
  obtain ⟨blocks, written, each⟩ := recombined
  refine ⟨blocks.map (crypto.aes password).symm, ?_, ?_⟩
  · rw [written, Ecb.decrypt_flatten]
  · intro block member
    obtain ⟨cipher, inside, rfl⟩ := List.mem_map.mp member
    obtain ⟨issue, listed, own, read, here⟩ := each cipher inside
    refine ⟨issue, listed, ?_⟩
    rw [readable issue listed, Ecb.encrypt] at read
    obtain rfl := Ecb.flatten_injective read
    obtain ⟨plain, known, rfl⟩ := List.mem_map.mp here
    rwa [Equiv.symm_apply_apply]

theorem split_single {text field : Text} {mark : Char} (single : JavaScript.split text mark = [field]) : text = field := by
  have whole : [mark].intercalate (JavaScript.split text mark) = text := List.intercalate_splitOn mark
  rw [single] at whole
  simpa using whole.symm

/-- The two fields are what stands on the two sides of one bar. -/
theorem fields_of_decode {plain : Bytes} {fileId timeStr : Text}
    (fields : JavaScript.split (Utf8.decode plain) '|' = [fileId, timeStr]) :
    ∃ before after, plain = before ++ 124 :: after ∧ Utf8.decode before = fileId ∧ Utf8.decode after = timeStr := by
  have bar : (124 : UInt8) ∈ plain := by
    by_contra absent
    have none : '|' ∉ Utf8.decode plain := fun member => absent ((@Utf8.mem_decode plain 124 (by decide) (by decide)).mp member)
    rw [JavaScript.split, List.splitOn_eq_singleton none] at fields
    cases fields
  obtain ⟨before, after, rfl⟩ := List.append_of_mem bar
  have pieces : JavaScript.split (Utf8.decode before ++ '|' :: Utf8.decode after) '|' =
      JavaScript.split (Utf8.decode before) '|' ++ JavaScript.split (Utf8.decode after) '|' :=
    List.splitOn_append_cons_self _ _
  rw [Utf8.decode_ascii before after (by decide)] at fields
  have both := pieces.symm.trans fields
  refine ⟨before, after, rfl, ?_⟩
  have first : JavaScript.split (Utf8.decode before) '|' ≠ [] := List.splitOn_ne_nil _ _
  have second : JavaScript.split (Utf8.decode after) '|' ≠ [] := List.splitOn_ne_nil _ _
  rcases List.append_eq_cons_iff.mp both with ⟨none, -⟩ | ⟨more, left, right⟩
  · exact absurd none first
  rcases List.append_eq_cons_iff.mp right.symm with ⟨none, last⟩ | ⟨others, -, empty⟩
  · subst none
    exact ⟨split_single left, split_single last⟩
  · exact absurd (List.append_eq_nil_iff.mp empty.symm).2 second

/-- The block with the bar of a deciphered token, in the token and in the issued data that it
comes from. -/
theorem bar_block {issued : Set Issue} {blocks : List Ecb.Block} {before after : Bytes}
    (each : ∀ block ∈ blocks, ∃ issue ∈ issued, block ∈ Ecb.paddedBlocks (Utf8.encode issue.data))
    (shape : Ecb.flatten blocks = before ++ 124 :: after) :
    ∃ issue ∈ issued, ∃ near far, near <:+ before ∧ far <+: after ∧ near.length + far.length = 15 ∧
      near <:+ Utf8.encode issue.fileId ∧ near.length = (Utf8.encode issue.fileId).length % 16 ∧
      far <+: Utf8.encode issue.timeStr ++ Ecb.padding (Utf8.encode issue.data).length := by
  obtain ⟨block, member, front, near, far, back, rfl, rfl, -, inside⟩ := Ecb.mem_flatten_split shape
  obtain ⟨issue, listed, own⟩ := each block member
  obtain ⟨ownFront, ownBack, placed, whole⟩ := Ecb.mem_flatten_block own
  rw [Ecb.flatten_paddedBlocks, inside, List.append_assoc, List.cons_append, ← List.append_assoc] at placed
  obtain ⟨name, time⟩ := bar_of_pad placed
  have lengths := congrArg List.length inside
  rw [block.property, List.length_append, List.length_cons] at lengths
  refine ⟨issue, listed, near, far, List.suffix_append .., List.prefix_append .., by omega, ?_, ?_, ?_⟩
  · exact name ▸ List.suffix_append ..
  · rw [name, List.length_append]
    omega
  · exact time ▸ List.prefix_append ..

theorem decode_suffix {name : Text} {data : Bytes} (ends : Utf8.encode name <:+ data) : name <:+ Utf8.decode data := by
  obtain ⟨front, rfl⟩ := ends
  rw [Utf8.decode_append_encode]
  exact List.suffix_append ..

theorem encode_suffix {name text : Text} (ends : name <:+ text) : Utf8.encode name <:+ Utf8.encode text := by
  obtain ⟨front, rfl⟩ := ends
  rw [Utf8.encode_append]
  exact List.suffix_append ..

theorem digits_begin {digits filler after ends : Bytes} (numeral : ∀ b ∈ digits, 16 < b.toNat)
    (fillers : ∀ b ∈ ends, b.toNat ≤ 16) (filled : filler ≠ []) (small : ∀ b ∈ filler, b.toNat ≤ 16)
    (begins : digits ++ filler <+: after ++ ends) :
    ∃ rest, after = digits ++ rest ∧ ∀ b ∈ rest.head?, b.toNat ≤ 16 := by
  obtain ⟨tail, shape⟩ := begins
  rw [List.append_assoc] at shape
  obtain ⟨first, filler, rfl⟩ := List.exists_cons_of_ne_nil filled
  rcases List.append_eq_append_iff.mp shape with ⟨rest, rfl, behind⟩ | ⟨rest, rfl, behind⟩
  · refine ⟨rest, rfl, ?_⟩
    intro b head
    cases rest with
    | nil => cases head
    | cons c rest =>
      obtain rfl := Option.some.inj head
      exact small c ((List.cons.inj behind).1 ▸ List.mem_cons_self)
  · cases rest with
    | nil => exact ⟨[], by simp, by simp⟩
    | cons c rest =>
      have digit := numeral c (by simp)
      have filler := fillers c (behind ▸ by simp)
      omega

/-- When a filler byte follows the time in its block, the time is read as it was issued. -/
theorem parseInt_of_block {issue : Issue} {after far : Bytes} {last : UInt8} (small : last.toNat ≤ 16)
    (begins : far <+: after ++ List.replicate last.toNat last)
    (own : far <+: Utf8.encode issue.timeStr ++ Ecb.padding (Utf8.encode issue.data).length)
    (room : issue.timeStr.length < far.length) : parseInt (Utf8.decode after) = .nearest issue.time := by
  have size : (Utf8.encode issue.timeStr).length = issue.timeStr.length := by rw [encode_timeStr, List.length_map]
  obtain ⟨filler, rfl⟩ : Utf8.encode issue.timeStr <+: far :=
    List.prefix_of_prefix_length_le (List.prefix_append ..) own (by omega)
  have filled : filler ≠ [] := by
    rintro rfl
    rw [List.append_nil] at room
    omega
  have fillers := (List.prefix_append_right_inj _).mp own
  obtain ⟨rest, rfl, stops⟩ := digits_begin (fun b member => (timeStr_bytes member).1.trans_lt' (by omega))
    (fun b member => List.eq_of_mem_replicate member ▸ small) filled
    (fun b member => (padding_bytes (fillers.subset member)).2) begins
  cases rest with
  | nil => rw [List.append_nil, Utf8.decode_encode, Issue.timeStr, parseInt_toDigits]
  | cons b rest =>
    have few := stops b rfl
    have control : ∀ n < 17, Control (Char.ofNat n) := by
      unfold Control
      decide
    rw [Utf8.decode_ascii _ _ (by omega), Utf8.decode_encode]
    apply parseInt_append
    intro c head
    obtain rfl := Option.some.inj head
    exact control b.toNat (by omega)

theorem intime_of_not_past {now : ℤ} {timeStr : Text} {time : Nat} (dated : now ≤ 8640000000000000)
    (parsed : parseInt timeStr = .nearest time) (notPast : (expiry timeStr).lt (.ofInt now) = false) :
    now ≤ time + 21600000 := by
  by_contra past
  have exact : Number.nearest (time : ℚ) = .fin time := by
    have whole := @Number.nearest_whole (time : ℤ) (by rw [abs_lt]; omega)
    exact_mod_cast whole
  have sum : Number.nearest ((time : ℚ) + 21600000) = .fin ((time : ℚ) + 21600000) := by
    have whole := @Number.nearest_whole ((time : ℤ) + 21600000) (by rw [abs_lt]; omega)
    exact_mod_cast whole
  have last : expiry timeStr = .fin ((time : ℚ) + 21600000) := by
    rw [expiry, parsed, exact]
    exact sum
  rw [expiry_le last] at notPast
  have : now ≤ time + 21600000 := by exact_mod_cast notPast
  omega

/-- A token as it was issued passes in its time, on the paths with its file, and nowhere else. -/
theorem issued_forwards_iff {crypto : Crypto} {issued : Set Issue} (readable : Readable crypto issued) {issue : Issue}
    (listed : issue ∈ issued) (parse : Bytes → Except Error Url) {url : Bytes} {pathname : Text} {now : ℤ}
    (parsed : parse url = .ok ⟨some pathname, some (issue.token crypto)⟩) :
    Forwards (crypto.outside parse) now url ↔
      (expiry issue.timeStr).lt (.ofInt now) = false ∧ issue.fileId <:+: pathname := by
  have own := issued_decrypts readable listed parse
  rw [forwards_iff, ← indexOf_found_iff]
  constructor
  · intro holds
    obtain ⟨_, _, fileId, timeStr, again, decrypts, intime, found⟩ := holds
    rw [show (crypto.outside parse).parse url = parse url from rfl, parsed] at again
    cases again
    obtain ⟨rfl, rfl⟩ := decrypts.unique _ own
    exact ⟨intime, found⟩
  · intro holds
    obtain ⟨intime, found⟩ := holds
    exact ⟨pathname, some (issue.token crypto), issue.fileId, issue.timeStr, parsed, own, intime, found⟩

/-- What a request that passed has in common with the token that the block with the bar comes
from. -/
structure Bound (issue : Issue) (pathname : Text) (now : ℤ) : Prop where
  /-- The end of the file that shares a block with the bar is in the path. -/
  name : ∀ name, name <:+ issue.fileId →
    (Utf8.encode name).length ≤ (Utf8.encode issue.fileId).length % 16 → name <:+: pathname
  /-- A time that ends in the block of the bar is not over. -/
  time : (Utf8.encode issue.fileId).length % 16 + 1 + issue.timeStr.length ≤ 15 → now ≤ issue.time + 21600000

theorem Bound.whole {issue : Issue} {pathname : Text} {now : ℤ} (bound : Bound issue pathname now)
    (short : (Utf8.encode issue.data).length ≤ 15) : issue.fileId <:+: pathname ∧ now ≤ issue.time + 21600000 := by
  rw [encode_data, List.length_append, List.length_cons, encode_timeStr, List.length_map] at short
  refine ⟨bound.name issue.fileId List.suffix_rfl (by omega), bound.time (by omega)⟩

/-- A request that passes with blocks of issued tokens is bound to one of these tokens, as far as
the block with the bar reaches. -/
theorem recombined_bound (crypto : Crypto) (parse : Bytes → Except Error Url) (issued : Set Issue) {token pathname : Text}
    {url : Bytes} {now : ℤ} (readable : Readable crypto issued) (recombined : Recombined crypto issued token)
    (parsed : parse url = .ok ⟨some pathname, some token⟩) (dated : now ≤ 8640000000000000)
    (forwards : Forwards (crypto.outside parse) now url) :
    ∃ issue ∈ issued, Bound issue pathname now ∧ ((Utf8.encode issue.data).length ≤ 15 →
      issue.fileId <:+: pathname ∧ now ≤ issue.time + 21600000) := by
  obtain ⟨_, _, fileId, timeStr, again, ⟨fileStr, decrypted, fields⟩, notPast, found⟩ := (forwards_iff _ now url).mp forwards
  rw [show (crypto.outside parse).parse url = parse url from rfl, parsed] at again
  cases again
  obtain ⟨blocks, deciphered, each⟩ := recombined_plain readable recombined
  obtain ⟨plain, unpadded, rfl⟩ : ∃ plain, Ecb.unpad (Ecb.flatten blocks) = some plain ∧ Utf8.decode plain = fileStr := by
    simp only [aesDecrypt, Crypto.outside, Crypto.decipher, deciphered] at decrypted
    cases unpadded : Ecb.unpad (Ecb.flatten blocks) with
    | none => simp [unpadded] at decrypted
    | some plain => exact ⟨plain, rfl, by simpa [unpadded] using decrypted⟩
  obtain ⟨last, -, small, whole⟩ := Ecb.unpad_some unpadded
  obtain ⟨before, after, rfl, rfl, rfl⟩ := fields_of_decode fields
  rw [List.append_assoc, List.cons_append] at whole
  obtain ⟨issue, listed, near, far, ends, begins, room, ownName, size, ownTime⟩ := bar_block each whole
  have bound : Bound issue pathname now := by
    constructor
    · intro name suffix short
      have inside : Utf8.encode name <:+ near := by
        apply List.suffix_of_suffix_length_le (encode_suffix suffix) ownName
        omega
      have read := decode_suffix (inside.trans ends)
      exact read.isInfix.trans ((indexOf_found_iff _ _).mp found)
    · intro fits
      exact intime_of_not_past dated (parseInt_of_block small begins ownTime (by omega)) notPast
  exact ⟨issue, listed, bound, bound.whole⟩

def expired : Issue := ⟨"photo-01234.jpg".toList, 1400000000000, by decide⟩

def fresh : Issue := ⟨"photo-56789.jpg".toList, 1500000000000, by decide⟩

/-- The ciphertext of `photo-01234.jpg|`. -/
def expiredName : Ecb.Block := ⟨[12, 99, 242, 245, 152, 46, 183, 100, 139, 169, 97, 124, 166, 233, 148, 8], rfl⟩

/-- The ciphertext of `1400000000000` with three fillers. -/
def expiredTime : Ecb.Block := ⟨[136, 125, 171, 58, 73, 106, 182, 149, 240, 25, 242, 3, 110, 114, 34, 126], rfl⟩

/-- The ciphertext of `photo-56789.jpg|`. -/
def freshName : Ecb.Block := ⟨[10, 219, 194, 72, 90, 213, 10, 220, 116, 39, 40, 45, 57, 222, 8, 245], rfl⟩

/-- The ciphertext of `1500000000000` with three fillers. -/
def freshTime : Ecb.Block := ⟨[43, 61, 7, 136, 231, 158, 193, 69, 20, 96, 76, 247, 25, 49, 5, 85], rfl⟩

def expiredToken : Text := "DGPy9Zgut2SLqWF8pumUCIh9qzpJaraV8BnyA25yIn4=".toList

def freshToken : Text := "CtvCSFrVCtx0JygtOd4I9Ss9B4jnnsFFFGBM9xkxBVU=".toList

/-- The name of the one and the time of the other. -/
def splicedToken : Text := "DGPy9Zgut2SLqWF8pumUCCs9B4jnnsFFFGBM9xkxBVU=".toList

/-- The cipher and base64 on the blocks and the texts of these tokens. -/
def sample : Crypto where
  aes _ :=
    (Equiv.swap ⟨bytes "photo-01234.jpg|", by decide⟩ expiredName).trans <|
      (Equiv.swap ⟨bytes "1400000000000" ++ [3, 3, 3], by decide⟩ expiredTime).trans <|
      (Equiv.swap ⟨bytes "photo-56789.jpg|", by decide⟩ freshName).trans <|
      Equiv.swap ⟨bytes "1500000000000" ++ [3, 3, 3], by decide⟩ freshTime
  toBase64 data := if data = Ecb.flatten [expiredName, expiredTime] then expiredToken else freshToken
  ofBase64 text :=
    if text = expiredToken then Ecb.flatten [expiredName, expiredTime]
    else if text = freshToken then Ecb.flatten [freshName, freshTime]
    else Ecb.flatten [expiredName, freshTime]

/-- A request for the file of the first token with the spliced one. -/
def spliced : Bytes → Except Error Url := fun _ => .ok ⟨some "/p/photo-01234.jpg".toList, some splicedToken⟩

theorem sample_readable : Readable sample {expired, fresh} := by
  intro issue member
  rcases member with rfl | rfl <;> decide +kernel

theorem spliced_recombined : Recombined sample {expired, fresh} splicedToken := by
  refine ⟨[expiredName, freshTime], by decide +kernel, ?_⟩
  intro block member
  rcases List.mem_pair.mp member with rfl | rfl
  · exact ⟨expired, Or.inl rfl, [expiredName, expiredTime], by decide +kernel, by simp⟩
  · exact ⟨fresh, Or.inr rfl, [freshName, freshTime], by decide +kernel, by simp⟩

theorem spliced_forwards : Forwards (sample.outside spliced) 1500000000000 (bytes "/p/photo-01234.jpg") := by
  unfold Forwards
  decide +kernel

theorem spliced_bound :
    ∃ issue ∈ ({expired, fresh} : Set Issue), Bound issue "/p/photo-01234.jpg".toList 1500000000000 ∧
      ((Utf8.encode issue.data).length ≤ 15 →
        issue.fileId <:+: "/p/photo-01234.jpg".toList ∧ 1500000000000 ≤ (issue.time : ℤ) + 21600000) :=
  recombined_bound sample spliced {expired, fresh} sample_readable spliced_recombined rfl (by norm_num) spliced_forwards

/-- The time of a token whose time is over is replaced by that of another token. -/
theorem expired_token_refreshed :
    Readable sample {expired, fresh} ∧ Recombined sample {expired, fresh} splicedToken ∧
      Forwards (sample.outside spliced) 1500000000000 (bytes "/p/photo-01234.jpg") ∧
      ¬ ∃ issue ∈ ({expired, fresh} : Set Issue), issue.fileId <:+: "/p/photo-01234.jpg".toList ∧
        1500000000000 ≤ (issue.time : ℤ) + 21600000 := by
  refine ⟨sample_readable, spliced_recombined, spliced_forwards, ?_⟩
  intro holds
  obtain ⟨issue, rfl | rfl, inside, intime⟩ := holds
  · revert intime
    decide
  · revert inside
    decide

end ImageServer.ThumbnailGate
