import ImageServer.Proofs.ComponentPatterns
import ImageServer.SuffixRewrite

/-! What the rewrite rule for suffixes does to an address. It takes away what is between the last
two dots that its expression can use, and these need not be dots of the name. -/

namespace ImageServer.SuffixRewrite
open Regex

def Line (text : Bytes) : Prop := (10 : UInt8) ∉ text

theorem line_iff {text : Bytes} : Line text ↔ ∀ b ∈ text, dot b = true := by
  constructor
  · intro line b member
    exact bne_iff_ne.mpr fun same => line (same ▸ member)
  · intro all member
    exact absurd (all 10 member) (by decide)

/-- Three folders below the uploads, and the beginning of a name or of more folders. -/
structure Deep (start : Bytes) : Prop where
  shape : ∃ first second third name,
    start = bytes "/upload/" ++ (first ++ slash :: (second ++ slash :: (third ++ slash :: name)))
  line : Line start

/-- What follows a dot that the rule can use. -/
def Suffixed (text : Bytes) : Prop := ∃ segment sign ending,
  text = 46 :: (segment ++ sign :: (bytes "jpg" ++ ending)) ∧ Line segment ∧ sign ≠ 10 ∧ (ending = [] ∨ ending = [10])

theorem folders_reads {text rest : Bytes} {groups after : Groups} :
    uploadFolders.Reads text rest groups after ↔ ∃ first second third,
      text = bytes "/upload/" ++ (first ++ slash :: (second ++ slash :: (third ++ [slash]))) ∧ Line first ∧ Line second ∧
      Line third ∧ after = Function.update (Function.update (Function.update groups 1 first) 2 second) 3 third := by
  constructor
  · intro holds
    obtain ⟨_, _, _, rfl, location, first, _, _, rfl, ⟨_, ⟨line1, rfl⟩, rfl⟩, _, _, _, rfl, slash1, second, _, _, rfl,
      ⟨_, ⟨line2, rfl⟩, rfl⟩, _, _, _, rfl, slash2, third, _, _, rfl, ⟨_, ⟨line3, rfl⟩, rfl⟩, slash3⟩ := holds
    obtain ⟨rfl, rfl⟩ := exactly_reads.mp location
    obtain ⟨rfl, rfl⟩ := exactly_reads.mp slash1
    obtain ⟨rfl, rfl⟩ := exactly_reads.mp slash2
    obtain ⟨rfl, rfl⟩ := exactly_reads.mp slash3
    exact ⟨first, second, third, rfl, line_iff.mpr line1, line_iff.mpr line2, line_iff.mpr line3, rfl⟩
  · intro holds
    obtain ⟨first, second, third, rfl, line1, line2, line3, rfl⟩ := holds
    exact ⟨_, _, _, rfl, exactly_reads.mpr ⟨rfl, rfl⟩, first, _, _, rfl, ⟨_, ⟨line_iff.mp line1, rfl⟩, rfl⟩,
      [slash], _, _, rfl, exactly_reads.mpr ⟨rfl, rfl⟩, second, _, _, rfl, ⟨_, ⟨line_iff.mp line2, rfl⟩, rfl⟩,
      [slash], _, _, rfl, exactly_reads.mpr ⟨rfl, rfl⟩, third, [slash], _, rfl, ⟨_, ⟨line_iff.mp line3, rfl⟩, rfl⟩,
      exactly_reads.mpr ⟨rfl, rfl⟩⟩

theorem suffix_reads {text rest : Bytes} {groups after : Groups} :
    suffixRegex.Reads text rest groups after ↔ ∃ segment sign, text = 46 :: (segment ++ sign :: bytes "jpg") ∧
      Line segment ∧ sign ≠ 10 ∧ (rest = [] ∨ rest = [10]) ∧ after = Function.update groups 5 segment := by
  constructor
  · intro holds
    obtain ⟨_, _, _, rfl, point, segment, _, _, rfl, ⟨_, ⟨line, rfl⟩, rfl⟩, _, _, _, rfl, ⟨⟨sign, rfl, any⟩, rfl⟩, _, _, _, rfl,
      letters, rfl, ends, rfl⟩ := holds
    obtain ⟨rfl, rfl⟩ := exactly_reads.mp point
    obtain ⟨rfl, rfl⟩ := exactly_reads.mp letters
    exact ⟨segment, sign, by simp, line_iff.mpr line, bne_iff_ne.mp any, ends, rfl⟩
  · intro holds
    obtain ⟨segment, sign, rfl, line, any, ends, rfl⟩ := holds
    exact ⟨[46], _, groups, rfl, exactly_reads.mpr ⟨rfl, rfl⟩, segment, sign :: bytes "jpg", _, rfl,
      ⟨_, ⟨line_iff.mp line, rfl⟩, rfl⟩, [sign], bytes "jpg", _, rfl, ⟨⟨sign, rfl, bne_iff_ne.mpr any⟩, rfl⟩, bytes "jpg", [], _,
      by simp, exactly_reads.mpr ⟨rfl, rfl⟩, rfl, ends, rfl⟩

/-- Where the rule can go on, whatever has been captured. -/
theorem suffix_exec_iff {subject : Bytes} {groups : Groups} :
    (suffixRegex.exec subject groups fun _ groups => some groups).isSome ↔ Suffixed subject := by
  constructor
  · intro found
    obtain ⟨result, hit⟩ := Option.isSome_iff_exists.mp found
    obtain ⟨text, rest, after, rfl, reads, -⟩ := exec_some hit
    obtain ⟨segment, sign, rfl, line, any, ends, -⟩ := suffix_reads.mp reads
    exact ⟨segment, sign, rest, by simp, line, any, ends⟩
  · intro suffixed
    obtain ⟨segment, sign, ending, rfl, line, any, ends⟩ := suffixed
    have reads : suffixRegex.Reads (46 :: (segment ++ sign :: bytes "jpg")) ending groups (Function.update groups 5 segment) :=
      suffix_reads.mpr ⟨segment, sign, rfl, line, any, ends, rfl⟩
    have found := @exec_isSome _ _ _ _ _ _ (fun _ groups => some groups) reads rfl
    simpa using found

theorem line_append {first second : Bytes} : Line (first ++ second) ↔ Line first ∧ Line second := by
  simp only [Line, List.mem_append, not_or]

theorem line_upload : Line (bytes "/upload/") := by simp [Line, bytes]

theorem line_slash {text : Bytes} : Line (slash :: text) ↔ Line text := by simp [Line, slash]

theorem take_front (text rest : Bytes) : (text ++ rest).take ((text ++ rest).length - rest.length) = text := by simp

/-- The last dot that can be used is the one that is used. -/
theorem rewrite_some {uri new : Bytes} (hit : rewrite uri = some new) :
    ∃ start tail, uri = start ++ tail ∧ new = start ++ bytes ".jpg" ∧ Deep start ∧ Suffixed tail ∧
      ∀ more later, tail = more ++ later → more ≠ [] → Line more → ¬ Suffixed later := by
  obtain ⟨groups, done, rfl⟩ := Option.map_eq_some_iff.mp hit
  change uploadFolders.exec uri noGroups (fun rest groups =>
    (Regex.cat (.group 4 (.many dot)) suffixRegex).exec rest groups fun _ groups => some groups) = some groups at done
  obtain ⟨text, rest, after, rfl, reads, named⟩ := exec_some done
  obtain ⟨first, second, third, rfl, line1, line2, line3, rfl⟩ := folders_reads.mp reads
  obtain ⟨name, tail, rfl, line4, found, longest⟩ := manyThen_longest named
  obtain ⟨shown, rest, after, rfl, read, same⟩ := exec_some found
  obtain ⟨segment, sign, rfl, line5, any, ends, rfl⟩ := suffix_reads.mp read
  obtain rfl := Option.some.inj same
  have deep : Deep (bytes "/upload/" ++ (first ++ slash :: (second ++ slash :: (third ++ slash :: name)))) := by
    refine ⟨⟨first, second, third, name, rfl⟩, ?_⟩
    simp only [line_append, line_slash]
    exact ⟨line_upload, line1, line2, line3, line_iff.mpr line4⟩
  refine ⟨_, _, ?_, ?_, deep, suffix_exec_iff.mp (Option.isSome_of_eq_some found), ?_⟩
  · simp
  · rw [replacement, take_front]
    simp
  · intro more later split longer line suffixed
    have none := longest more later split longer (line_iff.mp line)
    exact Option.isSome_iff_ne_none.mp (suffix_exec_iff.mpr suffixed) none

theorem rewrite_isSome {start tail : Bytes} (deep : Deep start) (suffixed : Suffixed tail) :
    (rewrite (start ++ tail)).isSome := by
  obtain ⟨⟨first, second, third, name, rfl⟩, line⟩ := deep
  simp only [line_append, line_slash] at line
  obtain ⟨-, line1, line2, line3, line4⟩ := line
  obtain ⟨segment, sign, ending, rfl, line5, any, ends⟩ := suffixed
  have reads : rewriteRegex.Reads
      ((bytes "/upload/" ++ (first ++ slash :: (second ++ slash :: (third ++ [slash])))) ++
        (name ++ 46 :: (segment ++ sign :: bytes "jpg"))) ending noGroups _ :=
    ⟨_, _, _, rfl, folders_reads.mpr ⟨first, second, third, rfl, line1, line2, line3, rfl⟩, name, _, _, rfl,
      ⟨_, ⟨line_iff.mp line4, rfl⟩, rfl⟩, suffix_reads.mpr ⟨segment, sign, rfl, line5, any, ends, rfl⟩⟩
  have found := @exec_isSome _ _ _ _ _ _ (fun _ groups => some groups) reads rfl
  rw [rewrite, Option.isSome_map]
  simpa using found

/-- An address that the location takes ends in `.jpg` and has five slashes. -/
theorem located_shape {uri : Bytes} (taken : located uri = true) :
    ∃ before ending, uri = before ++ (bytes ".jpg" ++ ending) ∧ (ending = [] ∨ ending = [10]) ∧ 5 ≤ uri.count slash := by
  obtain ⟨before, _, ending, groups, rfl, text, _, _, rfl, folders, name, _, _, rfl, -, point, _, _, rfl, -, segment, _, _, rfl,
    -, _, _, _, rfl, ⟨⟨sign, rfl, -⟩, -⟩, _, _, _, rfl, suffix, rfl, ends, -⟩ := (search_isSome_iff ..).mp taken
  obtain ⟨rfl, -⟩ := exactly_reads.mp suffix
  refine ⟨before ++ (text ++ (name ++ (point ++ (segment ++ [sign])))), ending, by simp, ends, ?_⟩
  obtain ⟨first, second, third, rfl, -⟩ := folders_reads.mp folders
  have upload : (bytes "/upload/").count slash = 2 := by simp [bytes, slash]
  simp only [List.count_append, List.count_cons_self, upload]
  omega

/-- A name without the segment before its last dot. -/
def dropSegment (name : Bytes) : Bytes :=
  let segments := name.splitOn 46
  [46].intercalate (segments.eraseIdx (segments.length - 2))

theorem last_mark {mark : UInt8} {text : Bytes} (member : mark ∈ text) :
    ∃ before after, text = before ++ mark :: after ∧ mark ∉ after := by
  obtain ⟨after, before, shape, first⟩ := List.eq_append_cons_of_mem (List.mem_reverse.mpr member)
  refine ⟨before.reverse, after.reverse, ?_, fun later => first (List.mem_reverse.mp later)⟩
  simpa using congrArg List.reverse shape

section DropSegment
variable {segment last : Bytes}

theorem dropSegment_eq (before : Bytes) (clean : 46 ∉ segment) (clean' : 46 ∉ last) :
    dropSegment (before ++ 46 :: (segment ++ 46 :: last)) = before ++ 46 :: last := by
  have segments : (before ++ 46 :: (segment ++ 46 :: last)).splitOn 46 = before.splitOn 46 ++ [segment, last] := by
    rw [List.splitOn_append_cons_self, List.splitOn_append_cons_self, List.splitOn_eq_singleton clean,
      List.splitOn_eq_singleton clean']
    rfl
  have kept : (before ++ 46 :: last).splitOn 46 = before.splitOn 46 ++ [last] := by
    rw [List.splitOn_append_cons_self, List.splitOn_eq_singleton clean']
  have place : (before.splitOn 46 ++ [segment, last]).length - 2 = (before.splitOn 46).length := by simp
  rw [dropSegment, segments, place, List.eraseIdx_append_of_length_le le_rfl, Nat.sub_self]
  change [46].intercalate (before.splitOn 46 ++ [last]) = _
  rw [← kept]
  exact List.intercalate_splitOn 46

theorem dropSegment_one (clean : 46 ∉ segment) (clean' : 46 ∉ last) : dropSegment (segment ++ 46 :: last) = last := by
  have segments : (segment ++ 46 :: last).splitOn 46 = [segment, last] := by
    rw [List.splitOn_append_cons_self, List.splitOn_eq_singleton clean, List.splitOn_eq_singleton clean']
    rfl
  rw [dropSegment, segments]
  exact List.intercalate_singleton

theorem mem_dropSegment (stem : Bytes) (clean : 46 ∉ last) {b : UInt8} (member : b ∈ last) :
    b ∈ dropSegment (stem ++ 46 :: last) := by
  by_cases dotted : (46 : UInt8) ∈ stem
  · obtain ⟨before, segment, rfl, clean'⟩ := last_mark dotted
    rw [List.append_assoc, List.cons_append, dropSegment_eq before clean' clean]
    exact List.mem_append_right before (List.mem_cons_of_mem 46 member)
  · rw [dropSegment_one dotted clean]
    exact member

end DropSegment

/-- The rule applies and takes the segment before the last dot off the name, and there is a last time. -/
structure StripsSuffix (uri : Bytes) : Prop where
  stripped : ∃ new, rewrite uri = some new ∧ directory new = directory uri ∧
    lastComponent new = dropSegment (lastComponent uri)
  ends : ∃ times, pass (again times uri) = none

theorem Suffixed.length_le {text : Bytes} (suffixed : Suffixed text) : 5 ≤ text.length := by
  obtain ⟨segment, sign, ending, rfl, -⟩ := suffixed
  have letters : (bytes "jpg").length = 3 := by simp [bytes]
  simp only [List.length_cons, List.length_append, letters]
  omega

theorem pass_shorter {uri new : Bytes} (passed : pass uri = some new) : new.length < uri.length := by
  obtain ⟨-, hit⟩ := Option.ite_none_right_eq_some.mp passed
  obtain ⟨start, tail, rfl, rfl, -, suffixed, -⟩ := rewrite_some hit
  have long := suffixed.length_le
  have letters : (bytes ".jpg").length = 4 := by simp [bytes]
  simp only [List.length_append, letters]
  omega

theorem passes_end (uri : Bytes) : ∃ times, pass (again times uri) = none := by
  induction size : uri.length using Nat.strong_induction_on generalizing uri with
  | _ size' ih =>
    cases passed : pass uri with
    | none => exact ⟨0, passed⟩
    | some new =>
      obtain ⟨times, done⟩ := ih new.length (size ▸ pass_shorter passed) new rfl
      refine ⟨times + 1, ?_⟩
      simpa only [again, passed] using done

theorem jpg_plain : slash ∉ bytes ".jpg" := by simp [bytes, slash]

theorem jpg_dot : bytes ".jpg" = 46 :: bytes "jpg" := by simp [bytes]

theorem jpg_clean : (46 : UInt8) ∉ bytes "jpg" := by simp [bytes]

theorem split_folder {folder : Bytes} (ends : IsFolder folder) : directory folder = folder ∧ lastComponent folder = [] := by
  obtain ⟨start, rfl⟩ := ends
  exact split_slashed [] start

theorem jpg_line : Line (bytes ".jpg") := by simp [Line, bytes]

theorem slash_split {text : Bytes} {slashes : Nat} (many : slashes + 1 ≤ text.count slash) :
    ∃ first rest, text = first ++ slash :: rest ∧ slashes ≤ rest.count slash := by
  have member : slash ∈ text := List.count_pos_iff.mp (by omega)
  obtain ⟨first, rest, rfl, plain⟩ := List.eq_append_cons_of_mem member
  rw [List.count_append, List.count_eq_zero.mpr plain, List.count_cons_self] at many
  exact ⟨first, rest, rfl, by omega⟩

theorem deep_of {start tail : Bytes} (upload : bytes "/upload/" <+: start ++ tail) (slashes : 5 ≤ start.count slash)
    (line : Line start) : Deep start := by
  refine ⟨?_, line⟩
  have inner : (bytes "/upload/").count slash = 2 := by simp [bytes, slash]
  obtain ⟨behind, upload⟩ := upload
  obtain ⟨rest, rfl, -⟩ | ⟨between, shape, -⟩ := List.append_eq_append_iff.mp upload
  · rw [List.count_append, inner] at slashes
    have three : 3 ≤ rest.count slash := by omega
    obtain ⟨first, rest, rfl, two⟩ := slash_split three
    obtain ⟨second, rest, rfl, one⟩ := slash_split two
    obtain ⟨third, name, rfl, -⟩ := slash_split one
    exact ⟨first, second, third, name, rfl⟩
  · rw [shape, List.count_append] at inner
    omega

/-- After the last dot before `.jpg` there is no place where the rule can go on. -/
theorem late_not_suffixed {segment more later : Bytes} (clean : 46 ∉ segment)
    (split : segment ++ bytes ".jpg" = more ++ later) : ¬ Suffixed later := by
  intro suffixed
  have long := suffixed.length_le
  have letters : (bytes ".jpg").length = 4 := by simp [bytes]
  obtain ⟨between, rfl, rest⟩ | ⟨between, rfl, rfl⟩ := List.append_eq_append_iff.mp split
  · have size := congrArg List.length rest
    rw [List.length_append, letters] at size
    omega
  · obtain ⟨segment', sign, ending, shape, -⟩ := suffixed
    cases between with
    | nil =>
      rw [List.nil_append, letters] at long
      omega
    | cons b between =>
      obtain ⟨rfl, -⟩ := List.cons.inj shape
      exact clean (List.mem_append_right more List.mem_cons_self)

/-- Where the name has a dot before `.jpg`, the last such dot is where the rule cuts. -/
theorem rewrite_last {start segment : Bytes} (deep : Deep start) (clean : 46 ∉ segment) (line : Line segment) :
    rewrite (start ++ 46 :: (segment ++ bytes ".jpg")) = some (start ++ bytes ".jpg") := by
  have suffixed : Suffixed (46 :: (segment ++ bytes ".jpg")) :=
    ⟨segment, 46, [], by rw [List.append_nil, ← jpg_dot], line, by decide, .inl rfl⟩
  obtain ⟨new, hit⟩ := Option.isSome_iff_exists.mp (rewrite_isSome deep suffixed)
  obtain ⟨start', tail, split, rfl, deep', usable, longest⟩ := rewrite_some hit
  rw [hit]
  obtain ⟨between, rfl, rest⟩ | ⟨between, rfl, rfl⟩ := List.append_eq_append_iff.mp split
  · cases between with
    | nil => rw [List.append_nil]
    | cons b between =>
      obtain ⟨-, later⟩ := List.cons.inj rest
      exact absurd usable (late_not_suffixed clean later)
  · cases between with
    | nil => rw [List.append_nil]
    | cons b between =>
      have inLine : Line (b :: between) := (line_append.mp deep.line).2
      exact absurd suffixed (longest (b :: between) _ rfl (List.cons_ne_nil b between) inLine)

theorem plain_append {first second : Bytes} : slash ∉ first ++ second ↔ slash ∉ first ∧ slash ∉ second := by
  simp only [List.mem_append, not_or]

/-- A name with a second dot loses the segment before the last one, wherever its folder is. -/
theorem strips_name {folder front segment : Bytes} (ends : IsFolder folder) (plain : slash ∉ front) (plain' : slash ∉ segment)
    (clean : 46 ∉ segment) (line : Line segment) (deep : Deep (folder ++ front)) :
    let uri := folder ++ (front ++ 46 :: (segment ++ bytes ".jpg"))
    ∃ new, rewrite uri = some new ∧ directory new = directory uri ∧ lastComponent new = dropSegment (lastComponent uri) := by
  intro uri
  obtain ⟨sameFolder, empty⟩ := split_folder ends
  have plainTail : slash ∉ 46 :: (segment ++ bytes ".jpg") := by
    simp only [List.mem_cons, List.mem_append, not_or]
    exact ⟨by decide, plain', jpg_plain⟩
  obtain ⟨oldDirectory, oldName⟩ := split_name (plain_append.mpr ⟨plain, plainTail⟩) folder
  obtain ⟨newDirectory, newName⟩ := split_name (plain_append.mpr ⟨plain, jpg_plain⟩) folder
  refine ⟨folder ++ (front ++ bytes ".jpg"), ?_, ?_, ?_⟩
  · have hit := rewrite_last deep clean line
    rwa [List.append_assoc, List.append_assoc] at hit
  · rw [newDirectory, oldDirectory]
  · rw [newName, oldName, empty, List.nil_append, List.nil_append, jpg_dot, dropSegment_eq front clean jpg_clean]

theorem strips_of {uri : Bytes} (taken : located uri = true) (upload : bytes "/upload/" <+: uri) (line : Line uri)
    (dots : 2 ≤ (lastComponent uri).count 46) : StripsSuffix uri := by
  refine ⟨?_, passes_end uri⟩
  obtain ⟨before, ending, rfl, rfl | rfl, slashes⟩ := located_shape taken
  · rw [List.append_nil] at *
    have one : (bytes ".jpg").count 46 = 1 := by simp [bytes]
    rw [(split_name jpg_plain before).2, List.count_append, one] at dots
    have dotted : 0 < (lastComponent before).count 46 := by omega
    obtain ⟨front, segment, name, clean⟩ := last_mark (List.count_pos_iff.mp dotted)
    have plain := lastComponent_plain before
    rw [name, plain_append, List.mem_cons, not_or] at plain
    have whole : before ++ bytes ".jpg" = directory before ++ (front ++ 46 :: (segment ++ bytes ".jpg")) := by
      nth_rewrite 1 [← directory_append before]
      rw [name]
      simp
    rw [whole, ← List.append_assoc] at line slashes upload
    rw [whole]
    obtain ⟨lineStart, lineTail⟩ := line_append.mp line
    have plainTail : slash ∉ 46 :: (segment ++ bytes ".jpg") := by
      simp only [List.mem_cons, List.mem_append, not_or]
      exact ⟨plain.2.1, plain.2.2, jpg_plain⟩
    rw [List.count_append, List.count_eq_zero.mpr plainTail, Nat.add_zero] at slashes
    have slashed : slash ∈ before := by
      have inside : slash ∈ directory before ++ front := List.count_pos_iff.mp (by omega)
      rw [← directory_append before]
      exact List.mem_append_left _ ((List.mem_append.mp inside).resolve_right plain.1)
    have lineSegment : Line segment := fun member => lineTail (List.mem_cons_of_mem 46 (List.mem_append_left _ member))
    exact strips_name (directory_folder slashed) plain.1 plain.2.2 clean lineSegment (deep_of upload slashes lineStart)
  · exact absurd line (by simp [Line])

/-- What is behind the folder of an address has no slash of its own. -/
theorem plain_of_directory {start tail : Bytes} (same : directory start = directory (start ++ tail)) : slash ∉ tail := by
  intro slashed
  obtain ⟨folder, last, rfl, plain⟩ := last_mark slashed
  have whole : start ++ (folder ++ slash :: last) = (start ++ (folder ++ [slash])) ++ last := by simp
  rw [whole, (split_name plain _).1, (split_slashed start folder).1] at same
  have parts := congrArg List.length (directory_append start)
  have sizes := congrArg List.length same
  simp only [List.length_append, List.length_singleton] at parts sizes
  omega

/-- A line feed at the end of the address would be left in the name. -/
theorem feed_kept {start before : Bytes} (line : Line start) :
    lastComponent (start ++ bytes ".jpg") ≠ dropSegment (lastComponent (before ++ (bytes ".jpg" ++ [10]))) := by
  intro same
  have plain : slash ∉ bytes ".jpg" ++ [10] := by simp [bytes, slash]
  have clean : (46 : UInt8) ∉ bytes "jpg" ++ [10] := by simp [bytes]
  have kept : (10 : UInt8) ∈ dropSegment (lastComponent before ++ 46 :: (bytes "jpg" ++ [10])) :=
    mem_dropSegment _ clean (List.mem_append_right _ (List.mem_singleton_self 10))
  rw [(split_name plain before).2, jpg_dot, List.cons_append, ← jpg_dot] at same
  rw [← same] at kept
  have inside : (10 : UInt8) ∈ start ++ bytes ".jpg" := by
    rw [← directory_append (start ++ bytes ".jpg")]
    exact List.mem_append_right _ kept
  exact line_append.mpr ⟨line, jpg_line⟩ inside

theorem suffixed_jpg {start before tail : Bytes} (suffixed : Suffixed tail) (split : start ++ tail = before ++ bytes ".jpg") :
    Line tail ∧ 2 ≤ tail.count 46 := by
  obtain ⟨segment, sign, ending, rfl, line, any, rfl | rfl⟩ := suffixed
  · have shape : (start ++ 46 :: segment) ++ sign :: bytes "jpg" = before ++ 46 :: bytes "jpg" := by
      rw [← jpg_dot, ← split]
      simp
    obtain ⟨-, tails⟩ := List.append_inj' shape rfl
    obtain ⟨rfl, -⟩ := List.cons.inj tails
    constructor
    · rw [List.append_nil, ← jpg_dot, ← List.singleton_append]
      exact line_append.mpr ⟨by simp [Line], line_append.mpr ⟨line, jpg_line⟩⟩
    · simp only [List.count_cons_self, List.count_append]
      omega
  · have shape : (start ++ 46 :: (segment ++ sign :: bytes "jpg")) ++ [10] = (before ++ bytes ".jp") ++ [103] := by
      have letters : bytes ".jpg" = bytes ".jp" ++ [103] := by simp [bytes]
      rw [List.append_assoc before, ← letters, ← split]
      simp
    exact absurd (List.append_inj' shape rfl).2 (by decide)

theorem of_strips {uri : Bytes} (taken : located uri = true) (strips : StripsSuffix uri) :
    bytes "/upload/" <+: uri ∧ Line uri ∧ 2 ≤ (lastComponent uri).count 46 := by
  obtain ⟨new, hit, sameFolder, sameName⟩ := strips.stripped
  obtain ⟨start, tail, rfl, rfl, deep, suffixed, -⟩ := rewrite_some hit
  obtain ⟨first, second, third, name, shape⟩ := deep.shape
  rw [(split_name jpg_plain start).1] at sameFolder
  refine ⟨⟨_, by rw [shape, List.append_assoc]⟩, ?_⟩
  obtain ⟨before, ending, split, rfl | rfl, -⟩ := located_shape taken
  · rw [List.append_nil] at split
    obtain ⟨line, dots⟩ := suffixed_jpg suffixed split
    rw [(split_name (plain_of_directory sameFolder) start).2, List.count_append]
    exact ⟨line_append.mpr ⟨deep.line, line⟩, dots.trans (Nat.le_add_left _ _)⟩
  · rw [split] at sameName
    exact absurd sameName (feed_kept deep.line)

/-- Of the addresses that the location takes, the rule does what it is for on these and no others. -/
theorem strips_suffix_iff {uri : Bytes} (taken : located uri = true) :
    StripsSuffix uri ↔ bytes "/upload/" <+: uri ∧ Line uri ∧ 2 ≤ (lastComponent uri).count 46 := by
  constructor
  · exact of_strips taken
  · intro ⟨upload, line, dots⟩
    exact strips_of taken upload line dots

theorem strips_suffix_goods : located (bytes "/upload/goods/2013/05/a.b.jpg") = true ∧
    StripsSuffix (bytes "/upload/goods/2013/05/a.b.jpg") := by
  have taken : located (bytes "/upload/goods/2013/05/a.b.jpg") = true := by decide +kernel
  refine ⟨taken, (strips_suffix_iff taken).mpr ⟨?_, ?_, ?_⟩⟩
  · exact ⟨bytes "goods/2013/05/a.b.jpg", by simp [bytes]⟩
  · simp [Line, bytes]
  · decide +kernel

/-- A dot of a directory is taken for the dot of the suffix: the directory and the name are lost. -/
theorem directory_dot_misread : located (bytes "/upload/goods/2013/05/v1.2/photo.jpg") = true ∧
    rewrite (bytes "/upload/goods/2013/05/v1.2/photo.jpg") = some (bytes "/upload/goods/2013/05/v1.jpg") ∧
    ¬ StripsSuffix (bytes "/upload/goods/2013/05/v1.2/photo.jpg") := by
  have taken : located (bytes "/upload/goods/2013/05/v1.2/photo.jpg") = true := by decide +kernel
  have hit : rewrite (bytes "/upload/goods/2013/05/v1.2/photo.jpg") = some (bytes "/upload/goods/2013/05/v1.jpg") := by
    decide +kernel
  refine ⟨taken, hit, fun strips => ?_⟩
  obtain ⟨-, -, dots⟩ := of_strips taken strips
  exact absurd dots (by decide +kernel)

end ImageServer.SuffixRewrite
