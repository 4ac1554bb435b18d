import ImageServer.Proofs.TokenExpiry

/-! Which files a token opens. The gate looks for the file of the token anywhere in the path, so
the token also opens every file whose name has that text in it. -/

namespace ImageServer
namespace JavaScript

theorem indexOf_found_iff (text piece : Text) : indexOf text piece ≠ -1 ↔ piece <:+: text := by
  unfold indexOf
  cases found : text.tails.findIdx? (piece.isPrefixOf ·) with
  | none =>
    refine iff_of_false (by simp) ?_
    intro inside
    obtain ⟨tail, start, ends⟩ := List.infix_iff_prefix_suffix.mp inside
    have missed := List.findIdx?_eq_none_iff.mp found tail ((List.mem_tails _ _).mpr ends)
    rw [List.isPrefixOf_iff_prefix.mpr start] at missed
    cases missed
  | some index =>
    refine iff_of_true (by simp) ?_
    obtain ⟨small, begins, -⟩ := List.findIdx?_eq_some_iff_getElem.mp found
    have ends : text.tails[index] <:+ text := (List.mem_tails _ _).mp (List.getElem_mem small)
    exact List.infix_iff_prefix_suffix.mpr ⟨_, List.isPrefixOf_iff_prefix.mp begins, ends⟩

/-- What is before the first mark holds every beginning without a mark. -/
theorem prefix_in_split {mark : Char} {piece text : Text} (plain : mark ∉ piece) (begins : piece <+: text) :
    ∃ first rest, JavaScript.split text mark = first :: rest ∧ piece <+: first := by
  induction text generalizing piece with
  | nil =>
    obtain rfl := List.prefix_nil.mp begins
    exact ⟨[], [], rfl, List.prefix_rfl⟩
  | cons c text ih =>
    rw [JavaScript.split, List.splitOn_cons_eq_if_modifyHead]
    cases piece with
    | nil =>
      split
      · exact ⟨[], _, rfl, List.prefix_rfl⟩
      · obtain ⟨first, rest, shape, -⟩ := @ih [] (by simp) List.nil_prefix
        rw [JavaScript.split] at shape
        exact ⟨c :: first, rest, by rw [shape]; rfl, List.nil_prefix⟩
    | cons b piece =>
      obtain ⟨rfl, later⟩ := List.cons_prefix_cons.mp begins
      obtain ⟨other, plain⟩ : mark ≠ b ∧ mark ∉ piece := by simpa using plain
      obtain ⟨first, rest, shape, inside⟩ := ih plain later
      rw [JavaScript.split] at shape
      rw [if_neg (by simpa using Ne.symm other), shape]
      exact ⟨b :: first, rest, rfl, List.cons_prefix_cons.mpr ⟨rfl, inside⟩⟩

theorem infix_in_split {mark : Char} {piece text : Text} (plain : mark ∉ piece) (inside : piece <:+: text) :
    ∃ part ∈ JavaScript.split text mark, piece <:+: part := by
  induction text with
  | nil =>
    obtain rfl := List.infix_nil.mp inside
    exact ⟨[], by simp [JavaScript.split], List.infix_rfl⟩
  | cons c text ih =>
    rcases List.infix_cons_iff.mp inside with begins | later
    · obtain ⟨first, rest, shape, begins⟩ := prefix_in_split plain begins
      exact ⟨first, by simp [shape], begins.isInfix⟩
    · obtain ⟨part, member, within⟩ := ih later
      rw [JavaScript.split, List.splitOn_cons_eq_if_modifyHead]
      split
      · exact ⟨part, List.mem_cons_of_mem _ member, within⟩
      · rw [JavaScript.split] at member
        cases parts : text.splitOn mark with
        | nil => simp [parts] at member
        | cons first rest =>
          rw [parts] at member
          rcases List.mem_cons.mp member with rfl | member
          · exact ⟨c :: part, by simp, List.infix_cons within⟩
          · exact ⟨part, by simp [member], within⟩

/-- Across the end of a directory a text without a slash is on one side. -/
theorem infix_below {piece directory name : Text} (plain : '/' ∉ piece) (single : '/' ∉ name)
    (folder : ∃ start, directory = start ++ ['/']) (elsewhere : ∀ part ∈ JavaScript.split directory '/', ¬ piece <:+: part) :
    piece <:+: directory ++ name ↔ piece <:+: name := by
  obtain ⟨start, rfl⟩ := folder
  constructor
  · intro inside
    have parts : JavaScript.split (start ++ ['/'] ++ name) '/' =
        JavaScript.split start '/' ++ [name] := by
      have last : JavaScript.split name '/' = [name] := List.splitOn_eq_singleton single
      rw [List.append_assoc, ← last]
      exact List.splitOn_append_cons_self start name
    have before : JavaScript.split (start ++ ['/']) '/' = JavaScript.split start '/' ++ [[]] :=
      List.splitOn_append_cons_self start []
    obtain ⟨part, member, within⟩ := infix_in_split plain inside
    rw [parts] at member
    rcases List.mem_append.mp member with early | late
    · exact absurd within (elsewhere part (by simp [before, early]))
    · obtain rfl := List.mem_singleton.mp late
      exact within
  · intro holds
    obtain ⟨left, right, rfl⟩ := holds
    exact ⟨start ++ ['/'] ++ left, right, by simp⟩

end JavaScript
namespace ThumbnailGate
open JavaScript

theorem split_fields {fileId timeStr : Text} (plain : '|' ∉ fileId) :
    JavaScript.split (fileId ++ '|' :: timeStr) '|' = fileId :: JavaScript.split timeStr '|' :=
  List.splitOn_append_cons_self_of_not_mem plain timeStr

/-- The fields of a token for a file. A time with a bar in it makes too many of them. -/
theorem decrypts_iff {outside : Outside} {token : Option Text} {fileId timeStr : Text} (plain : '|' ∉ fileId)
    (decrypted : aesDecrypt outside token password = some (fileId ++ '|' :: timeStr)) (foundId foundStr : Text) :
    Decrypts outside token foundId foundStr ↔ '|' ∉ timeStr ∧ foundId = fileId ∧ foundStr = timeStr := by
  simp only [Decrypts, decrypted, Option.some.injEq, exists_eq_left', split_fields plain, List.cons.injEq]
  by_cases bar : '|' ∈ timeStr
  · obtain ⟨before, after, rfl⟩ := List.append_of_mem bar
    have pieces : JavaScript.split (before ++ '|' :: after) '|' =
        JavaScript.split before '|' ++ JavaScript.split after '|' := List.splitOn_append_cons_self before after
    refine iff_of_false ?_ (fun fields => fields.1 bar)
    intro holds
    obtain ⟨-, short⟩ := holds
    have lengths := congrArg List.length (pieces.symm.trans short)
    have first := List.length_pos_iff.mpr (List.splitOn_ne_nil '|' before)
    have second := List.length_pos_iff.mpr (List.splitOn_ne_nil '|' after)
    rw [List.length_append, List.length_singleton] at lengths
    simp only [JavaScript.split] at lengths
    omega
  · have single : JavaScript.split timeStr '|' = [timeStr] := List.splitOn_eq_singleton bar
    simp [single, bar, eq_comm]

/-- Below a directory without its name, a token in its time is turned away from another file exactly
when the name of its own is no part of that file's name. -/
theorem other_file_closed_iff (outside : Outside) (now : ℤ) (url : Bytes) {token fileId timeStr directory other : Text}
    (plain : '/' ∉ fileId ∧ '|' ∉ fileId) (single : '/' ∉ other) (folder : ∃ start, directory = start ++ ['/'])
    (elsewhere : ∀ part ∈ JavaScript.split directory '/', ¬ fileId <:+: part)
    (parsed : outside.parse url = .ok ⟨some (directory ++ other), some token⟩)
    (decrypted : aesDecrypt outside (some token) password = some (fileId ++ '|' :: timeStr))
    (intime : (expiry timeStr).lt (.ofInt now) = false) :
    ¬ Forwards outside now url ↔ '|' ∈ timeStr ∨ ¬ fileId <:+: other := by
  rw [← infix_below plain.1 single folder elsewhere, ← indexOf_found_iff, forwards_iff, not_iff_comm, not_or,
    not_not]
  constructor
  · intro holds
    obtain ⟨whole, found⟩ := holds
    exact ⟨_, _, fileId, timeStr, parsed, (decrypts_iff plain.2 decrypted _ _).mpr ⟨whole, rfl, rfl⟩, intime, found⟩
  · intro holds
    obtain ⟨pathname, again, foundId, foundStr, sameUrl, decrypts, -, found⟩ := holds
    rw [parsed] at sameUrl
    cases sameUrl
    obtain ⟨whole, rfl, rfl⟩ := (decrypts_iff plain.2 decrypted _ _).mp decrypts
    exact ⟨whole, found⟩

def asked (pathname fileStr : Text) : Outside where
  parse _ := .ok ⟨some pathname, some []⟩
  decipher _ _ := .ok fileStr

theorem other_name_closed :
    ¬ Forwards (asked "/p/b.jpg".toList "a.jpg|1500000000000".toList) 1500000000000 (bytes "/p/b.jpg") := by
  have intime : (expiry "1500000000000".toList).lt (.ofInt 1500000000000) = false := by decide +kernel
  exact (@other_file_closed_iff (asked "/p/b.jpg".toList "a.jpg|1500000000000".toList) 1500000000000 (bytes "/p/b.jpg") []
    "a.jpg".toList "1500000000000".toList "/p/".toList "b.jpg".toList (by decide) (by decide) ⟨"/p".toList, by decide⟩
    (by decide) rfl rfl intime).mpr (Or.inr (by decide))

/-- The token of a file opens a file whose name ends in its name. -/
theorem longer_name_opened :
    let outside := asked "/p/aa.jpg".toList "a.jpg|1500000000000".toList
    (∀ part ∈ JavaScript.split "/p/".toList '/', ¬ "a.jpg".toList <:+: part) ∧ "a.jpg".toList ≠ "aa.jpg".toList ∧
      (expiry "1500000000000".toList).lt (.ofInt 1500000000000) = false ∧
      Forwards outside 1500000000000 (bytes "/p/aa.jpg") := by
  refine ⟨by decide, by decide, by decide +kernel, ?_⟩
  unfold Forwards
  decide +kernel

end ThumbnailGate
end ImageServer
