import ImageServer.LuaString
import Mathlib.Algebra.GroupWithZero.Nat

/-! How a POSIX shell reads a command line: quoting, words and the ends of commands.
Expansion of parameters, commands and home directories, redirections and groups depend on
more than the line; a line with one of them is not read further. An unquoted `*`, `?` or
`[` leaves a word that is a pattern for file names. -/

namespace ImageServer.Shell

structure Word where
  text : Bytes
  pattern : Bool
  deriving DecidableEq, Repr

def literal (text : Bytes) : Word := ⟨text, false⟩

abbrev Command := List Word

inductive Reading where
  | commands (list : List Command)
  /-- The line ends inside quotes, after these commands. -/
  | incomplete (finished : List Command)
  | other
  deriving DecidableEq, Repr

/-- What an unquoted byte does. -/
inductive Kind where
  | blank | separator | backslash | singleQuote | doubleQuote | operator | wildcard | ordinary
  deriving DecidableEq, Repr

def kind (b : UInt8) : Kind :=
  if b = 32 ∨ b = 9 then .blank
  else if b = 10 ∨ b = 59 ∨ b = 38 ∨ b = 124 then .separator
  else if b = 92 then .backslash
  else if b = 39 then .singleQuote
  else if b = 34 then .doubleQuote
  -- dollar, backquote, less, greater and the parentheses
  else if b = 36 ∨ b = 96 ∨ b = 60 ∨ b = 62 ∨ b = 40 ∨ b = 41 then .operator
  else if b = 42 ∨ b = 63 ∨ b = 91 then .wildcard
  else .ordinary

inductive Mode where
  | plain | comment | single | double | escape | doubleEscape
  deriving DecidableEq, Repr

/-- The commands and words read so far, and the word that is being read. -/
structure Progress where
  finished : List Command
  words : List Word
  word : Option Word
  deriving DecidableEq, Repr

namespace Progress

/-- Quotes begin a word even when nothing stands between them. -/
def opened (progress : Progress) : Progress :=
  { progress with word := some (progress.word.getD ⟨[], false⟩) }

def push (progress : Progress) (b : UInt8) (pattern : Bool) : Progress :=
  let word := progress.word.getD ⟨[], false⟩
  { progress with word := some ⟨word.text ++ [b], word.pattern || pattern⟩ }

def endWord (progress : Progress) : Progress :=
  { progress with words := progress.words ++ progress.word.toList, word := none }

def endCommand (progress : Progress) : Progress :=
  let words := progress.words ++ progress.word.toList
  ⟨if words = [] then progress.finished else progress.finished ++ [words], [], none⟩

end Progress

def scan : Mode → Progress → Bytes → Reading
  | .plain, progress, [] | .comment, progress, [] => .commands progress.endCommand.finished
  | .single, progress, [] | .double, progress, [] => .incomplete progress.finished
  | .escape, _, [] | .doubleEscape, _, [] => .other
  | .plain, progress, b :: rest =>
    match kind b with
    | .blank => scan .plain progress.endWord rest
    | .separator => scan .plain progress.endCommand rest
    | .backslash => scan .escape progress rest
    | .singleQuote => scan .single progress.opened rest
    | .doubleQuote => scan .double progress.opened rest
    | .operator => .other
    | .wildcard => scan .plain (progress.push b true) rest
    | .ordinary =>
      -- a number sign or a tilde means something only where a word begins
      if progress.word = none ∧ b = 35 then scan .comment progress rest
      else if progress.word = none ∧ b = 126 then .other
      else scan .plain (progress.push b false) rest
  | .comment, progress, b :: rest =>
    if b = 10 then scan .plain progress.endCommand rest else scan .comment progress rest
  | .escape, progress, b :: rest =>
    if b = 10 then scan .plain progress rest else scan .plain (progress.push b false) rest
  | .single, progress, b :: rest =>
    if b = 39 then scan .plain progress rest else scan .single (progress.push b false) rest
  | .double, progress, b :: rest =>
    if b = 34 then scan .plain progress rest
    else if b = 36 ∨ b = 96 then .other
    else if b = 92 then scan .doubleEscape progress rest
    else scan .double (progress.push b false) rest
  | .doubleEscape, progress, b :: rest =>
    if b = 10 then scan .double progress rest
    else if b = 36 ∨ b = 96 ∨ b = 34 ∨ b = 92 then scan .double (progress.push b false) rest
    else scan .double ((progress.push 92 false).push b false) rest

/-- A C string ends at its first zero byte. -/
def cString (text : Bytes) : Bytes := text.takeWhile (· != 0)

def read (line : Bytes) : Reading := scan .plain ⟨[], [], none⟩ (cString line)

/-- No shell runs anything before it has read to the end of a first command. -/
def Unfinished (line : Bytes) : Prop := read line = .incomplete []

/-- Run every command of a line in order, for commands whose words stand for themselves. -/
def interpret (program : List Bytes → σ → σ) (line : Bytes) (state : σ) : σ :=
  match read line with
  | .commands list => list.foldl (fun state command => program (command.map (·.text)) state) state
  | _ => state

/-- A byte that stands for itself wherever it is in a word. -/
def Plain (b : UInt8) : Prop := b ≠ 0 ∧ kind b = .ordinary

instance (b : UInt8) : Decidable (Plain b) := inferInstanceAs (Decidable (_ ∧ _))

theorem cString_plain {text : Bytes} (plain : ∀ b ∈ text, Plain b) (rest : Bytes) :
    cString (text ++ rest) = text ++ cString rest := by
  apply List.takeWhile_append_of_pos
  intro b member
  simpa using (plain b member).1

/-- An ordinary byte goes to its word, unless it begins a comment or a home directory. -/
theorem scan_ordinary {progress : Progress} {b : UInt8} {rest : Bytes} (ordinary : kind b = .ordinary)
    (comment : ¬ (progress.word = none ∧ b = 35)) (home : ¬ (progress.word = none ∧ b = 126)) :
    scan .plain progress (b :: rest) = scan .plain (progress.push b false) rest := by
  rw [scan, ordinary]
  dsimp only
  rw [if_neg comment, if_neg home]

theorem push_some (finished : List Command) (words : List Word) (word : Word) (b : UInt8) :
    Progress.push ⟨finished, words, some word⟩ b false = ⟨finished, words, some ⟨word.text ++ [b], word.pattern⟩⟩ := by
  simp [Progress.push]

theorem scan_plain {text : Bytes} (plain : ∀ b ∈ text, Plain b) (finished : List Command)
    (words : List Word) (word : Word) (rest : Bytes) :
    scan .plain ⟨finished, words, some word⟩ (text ++ rest) =
      scan .plain ⟨finished, words, some ⟨word.text ++ text, word.pattern⟩⟩ rest := by
  induction text generalizing word with
  | nil => simp
  | cons b text ih =>
    have here := (plain b (by simp)).2
    have begun : ¬ (some word = none) := Option.some_ne_none word
    rw [List.cons_append, scan_ordinary here (fun seen => begun seen.1) (fun seen => begun seen.1), push_some,
      ih (fun other member => plain other (by simp [member]))]
    simp

theorem cString_append {text : Bytes} (whole : (0 : UInt8) ∉ text) (rest : Bytes) :
    cString (text ++ rest) = text ++ cString rest := by
  apply List.takeWhile_append_of_pos
  intro b member
  have nonzero : b ≠ 0 := by
    rintro rfl
    exact whole member
  simpa using nonzero

theorem cString_whole {text : Bytes} (whole : (0 : UInt8) ∉ text) : cString text = text := by
  simpa [cString] using cString_append whole []

/-- What follows a text with a zero byte in it is not seen. -/
theorem cString_cut {text : Bytes} (zero : (0 : UInt8) ∈ text) (rest : Bytes) :
    cString (text ++ rest) = cString text := by
  obtain ⟨before, after, rfl, whole⟩ := List.eq_append_cons_of_mem zero
  rw [List.append_assoc, cString_append whole, cString_append whole]
  simp [cString]

/-- Between single quotes every byte is appended to the word, except for the quote itself. -/
theorem scan_single {text : Bytes} (unquoted : (39 : UInt8) ∉ text) (finished : List Command) (words : List Word)
    (word : Word) (rest : Bytes) :
    scan .single ⟨finished, words, some word⟩ (text ++ rest) =
      scan .single ⟨finished, words, some ⟨word.text ++ text, word.pattern⟩⟩ rest := by
  induction text generalizing word with
  | nil => simp
  | cons b text ih =>
    obtain ⟨notQuote, later⟩ := not_or.mp (mt List.mem_cons.mpr unquoted)
    have step : scan .single ⟨finished, words, some word⟩ (b :: (text ++ rest)) =
        scan .single (Progress.push ⟨finished, words, some word⟩ b false) (text ++ rest) := if_neg (Ne.symm notQuote)
    rw [List.cons_append, step, push_some, ih later]
    simp

/-- A text between single quotes is one word, byte for byte. -/
theorem scan_quoted {text : Bytes} (unquoted : (39 : UInt8) ∉ text) (finished : List Command) (words : List Word)
    (rest : Bytes) :
    scan .plain ⟨finished, words, none⟩ (39 :: (text ++ 39 :: rest)) =
      scan .plain ⟨finished, words, some (literal text)⟩ rest := by
  have opened : scan .plain ⟨finished, words, none⟩ (39 :: (text ++ 39 :: rest)) =
      scan .single ⟨finished, words, some (literal [])⟩ (text ++ 39 :: rest) := rfl
  rw [opened, scan_single unquoted]
  rfl

theorem scan_unclosed {text : Bytes} (unquoted : (39 : UInt8) ∉ text) (finished : List Command) (words : List Word) :
    scan .plain ⟨finished, words, none⟩ (39 :: text) = .incomplete finished := by
  have opened : scan .plain ⟨finished, words, none⟩ (39 :: text) =
      scan .single ⟨finished, words, some (literal [])⟩ (text ++ []) := by
    rw [List.append_nil]
    rfl
  rw [opened, scan_single unquoted]
  rfl

theorem scan_blank (finished : List Command) (words : List Word) (word : Option Word) (rest : Bytes) :
    scan .plain ⟨finished, words, word⟩ (32 :: rest) = scan .plain ⟨finished, words ++ word.toList, none⟩ rest := by
  rfl

theorem scan_end (words : List Word) (word : Word) :
    scan .plain ⟨[], words, some word⟩ [] = .commands [words ++ [word]] := by
  change Reading.commands (Progress.endCommand ⟨[], words, some word⟩).finished = _
  simp [Progress.endCommand]

namespace Progress

def size (progress : Progress) : Nat :=
  (progress.finished.flatten.map (·.text.length)).sum + (progress.words.map (·.text.length)).sum +
    (progress.word.toList.map (·.text.length)).sum

theorem size_opened (progress : Progress) : progress.opened.size = progress.size := by
  cases seen : progress.word <;> simp [opened, size, seen]

theorem size_push (progress : Progress) (b : UInt8) (pattern : Bool) :
    (progress.push b pattern).size = progress.size + 1 := by
  cases seen : progress.word with
  | none => simp [push, size, seen]
  | some word => simp [push, size, seen]; omega

theorem size_endWord (progress : Progress) : progress.endWord.size = progress.size := by
  simp [endWord, size]; omega

theorem size_endCommand (progress : Progress) : progress.endCommand.size = progress.size := by
  unfold endCommand
  simp only
  split
  next empty =>
    have words : progress.words = [] := (List.append_eq_nil_iff.mp empty).1
    have word : progress.word.toList = [] := (List.append_eq_nil_iff.mp empty).2
    simp [size, words, word]
  next => simp [size]; omega

theorem size_finished (progress : Progress) :
    (progress.endCommand.finished.flatten.map (·.text.length)).sum = progress.size := by
  rw [← size_endCommand]
  simp [size, endCommand]

/-- Some word is a pattern. -/
def HasPattern (progress : Progress) : Prop :=
  ∃ word ∈ progress.finished.flatten ++ progress.words ++ progress.word.toList, word.pattern = true

theorem HasPattern.opened {progress : Progress} (has : progress.HasPattern) : progress.opened.HasPattern := by
  obtain ⟨word, member, pattern⟩ := has
  simp only [List.mem_append, Option.mem_toList] at member
  rcases member with earlier | current
  · exact ⟨word, by simp only [Progress.opened, List.mem_append]; exact Or.inl earlier, pattern⟩
  · exact ⟨word, by simp [Progress.opened, current], pattern⟩

theorem HasPattern.push {progress : Progress} (has : progress.HasPattern) (b : UInt8) (active : Bool) :
    (progress.push b active).HasPattern := by
  obtain ⟨word, member, pattern⟩ := has
  simp only [List.mem_append, Option.mem_toList] at member
  rcases member with earlier | current
  · exact ⟨word, by simp only [Progress.push, List.mem_append]; exact Or.inl earlier, pattern⟩
  · exact ⟨⟨word.text ++ [b], word.pattern || active⟩, by simp [Progress.push, current], by simp [pattern]⟩

theorem HasPattern.endWord {progress : Progress} (has : progress.HasPattern) : progress.endWord.HasPattern := by
  simpa [HasPattern, Progress.endWord] using has

theorem HasPattern.finished {progress : Progress} (has : progress.HasPattern) :
    ∃ word ∈ progress.endCommand.finished.flatten, word.pattern = true := by
  obtain ⟨word, member, pattern⟩ := has
  refine ⟨word, ?_, pattern⟩
  unfold Progress.endCommand
  simp only
  split
  next empty =>
    have words : progress.words = [] := (List.append_eq_nil_iff.mp empty).1
    have current : progress.word.toList = [] := (List.append_eq_nil_iff.mp empty).2
    simpa [words, current] using member
  next => simpa using member

theorem HasPattern.endCommand {progress : Progress} (has : progress.HasPattern) :
    progress.endCommand.HasPattern := by
  obtain ⟨word, member, pattern⟩ := has.finished
  exact ⟨word, by simp [member], pattern⟩

end Progress

/-- In double quotes a backslash is kept in hand until the next byte is known. -/
def held : Mode → Nat
  | .doubleEscape => 1
  | _ => 0

/-- What reading one byte does to the mode and the progress, unless it ends the reading. -/
inductive Moves (b : UInt8) : Mode → Progress → Mode → Progress → Prop where
  | blank {progress} : kind b = .blank → Moves b .plain progress .plain progress.endWord
  | separator {progress} : kind b = .separator → Moves b .plain progress .plain progress.endCommand
  | backslash {progress} : kind b = .backslash → Moves b .plain progress .escape progress
  | singleQuote {progress} : kind b = .singleQuote → Moves b .plain progress .single progress.opened
  | doubleQuote {progress} : kind b = .doubleQuote → Moves b .plain progress .double progress.opened
  | wildcard {progress} : kind b = .wildcard → Moves b .plain progress .plain (progress.push b true)
  | comment {progress} : kind b = .ordinary → Moves b .plain progress .comment progress
  | ordinary {progress} : kind b = .ordinary → Moves b .plain progress .plain (progress.push b false)
  | commentEnd {progress} : b = 10 → Moves b .comment progress .plain progress.endCommand
  | commented {progress} : Moves b .comment progress .comment progress
  | continued {progress} : b = 10 → Moves b .escape progress .plain progress
  | escaped {progress} : Moves b .escape progress .plain (progress.push b false)
  | singleEnd {progress} : b = 39 → Moves b .single progress .plain progress
  | single {progress} : b ≠ 39 → Moves b .single progress .single (progress.push b false)
  | doubleEnd {progress} : b = 34 → Moves b .double progress .plain progress
  | doubleBackslash {progress} : b = 92 → Moves b .double progress .doubleEscape progress
  | double {progress} : Moves b .double progress .double (progress.push b false)
  | doubleContinued {progress} : b = 10 → Moves b .doubleEscape progress .double progress
  | doubleEscaped {progress} : Moves b .doubleEscape progress .double (progress.push b false)
  | doubleKept {progress} : Moves b .doubleEscape progress .double ((progress.push 92 false).push b false)

theorem scan_cons {mode : Mode} {progress : Progress} {b : UInt8} {rest : Bytes} {list : List Command}
    (done : scan mode progress (b :: rest) = .commands list) :
    ∃ mode' progress', scan mode' progress' rest = .commands list ∧ Moves b mode progress mode' progress' := by
  cases mode with
  | plain =>
    rw [scan] at done
    split at done
    next seen => exact ⟨_, _, done, .blank seen⟩
    next seen => exact ⟨_, _, done, .separator seen⟩
    next seen => exact ⟨_, _, done, .backslash seen⟩
    next seen => exact ⟨_, _, done, .singleQuote seen⟩
    next seen => exact ⟨_, _, done, .doubleQuote seen⟩
    next => cases done
    next seen => exact ⟨_, _, done, .wildcard seen⟩
    next seen =>
      split at done
      · exact ⟨_, _, done, .comment seen⟩
      · split at done
        · cases done
        · exact ⟨_, _, done, .ordinary seen⟩
  | comment =>
    rw [scan] at done
    split at done
    next seen => exact ⟨_, _, done, .commentEnd seen⟩
    next => exact ⟨_, _, done, .commented⟩
  | escape =>
    rw [scan] at done
    split at done
    next seen => exact ⟨_, _, done, .continued seen⟩
    next => exact ⟨_, _, done, .escaped⟩
  | single =>
    rw [scan] at done
    split at done
    next seen => exact ⟨_, _, done, .singleEnd seen⟩
    next seen => exact ⟨_, _, done, .single seen⟩
  | double =>
    rw [scan] at done
    split at done
    next seen => exact ⟨_, _, done, .doubleEnd seen⟩
    next =>
      split at done
      · cases done
      · split at done
        next seen => exact ⟨_, _, done, .doubleBackslash seen⟩
        next => exact ⟨_, _, done, .double⟩
  | doubleEscape =>
    rw [scan] at done
    split at done
    next seen => exact ⟨_, _, done, .doubleContinued seen⟩
    next =>
      split at done
      · exact ⟨_, _, done, .doubleEscaped⟩
      · exact ⟨_, _, done, .doubleKept⟩

theorem Moves.size {b : UInt8} {mode mode' : Mode} {progress progress' : Progress}
    (moves : Moves b mode progress mode' progress') :
    progress'.size + held mode' ≤ progress.size + 1 + held mode := by
  cases moves <;>
    simp only [Progress.size_opened, Progress.size_endWord, Progress.size_endCommand, Progress.size_push, held] <;> omega

theorem Moves.pattern {b : UInt8} {mode mode' : Mode} {progress progress' : Progress}
    (moves : Moves b mode progress mode' progress') (has : progress.HasPattern) : progress'.HasPattern := by
  cases moves with
  | blank => exact has.endWord
  | separator | commentEnd => exact has.endCommand
  | singleQuote | doubleQuote => exact has.opened
  | wildcard | ordinary | escaped | single | double | doubleEscaped => exact has.push b _
  | doubleKept => exact (has.push 92 false).push b false
  | backslash | comment | commented | continued | singleEnd | doubleEnd | doubleBackslash | doubleContinued => exact has

theorem scan_nil {mode : Mode} {progress : Progress} {list : List Command}
    (done : scan mode progress [] = .commands list) : list = progress.endCommand.finished := by
  cases mode <;> simp only [scan, reduceCtorEq, Reading.commands.injEq] at done <;> exact done.symm

/-- No byte of the words comes from nowhere. -/
theorem scan_size (mode : Mode) (progress : Progress) (line : Bytes) (list : List Command)
    (done : scan mode progress line = .commands list) :
    (list.flatten.map (·.text.length)).sum ≤ progress.size + line.length + held mode := by
  induction line generalizing mode progress with
  | nil => rw [scan_nil done, Progress.size_finished]; simp
  | cons b rest ih =>
    obtain ⟨mode', progress', later, moves⟩ := scan_cons done
    have bound := ih mode' progress' later
    have less := moves.size
    simp only [List.length_cons]
    omega

theorem scan_pattern (mode : Mode) (progress : Progress) (line : Bytes) (list : List Command)
    (done : scan mode progress line = .commands list) (has : progress.HasPattern) :
    ∃ word ∈ list.flatten, word.pattern = true := by
  induction line generalizing mode progress with
  | nil => rw [scan_nil done]; exact has.finished
  | cons b rest ih =>
    obtain ⟨mode', progress', later, moves⟩ := scan_cons done
    exact ih mode' progress' later (moves.pattern has)

/-- The first byte that is not plain. -/
private theorem first_rough (text : Bytes) (has : ∃ b ∈ text, ¬ Plain b) :
    ∃ before bad after, text = before ++ bad :: after ∧ (∀ b ∈ before, Plain b) ∧ ¬ Plain bad := by
  induction text with
  | nil => obtain ⟨b, member, _⟩ := has; cases member
  | cons b text ih =>
    by_cases plain : Plain b
    · obtain ⟨other, member, rough⟩ := has
      have later : other ∈ text := by
        rcases List.mem_cons.mp member with rfl | later
        · exact False.elim (rough plain)
        · exact later
      obtain ⟨before, bad, after, rfl, good, notPlain⟩ := ih ⟨other, later, rough⟩
      exact ⟨b :: before, bad, after, rfl, by simpa [plain] using good, notPlain⟩
    · exact ⟨[], b, text, rfl, by simp, plain⟩

/-- A byte that is not plain is dropped, makes the word a pattern, or ends the reading, so
the word cannot come out as it went in. -/
private theorem lost_at_rough (words : List Word) (literals : ∀ word ∈ words, word.pattern = false)
    (head : Bytes) {before after : Bytes} {bad : UInt8}
    (good : ∀ b ∈ before, Plain b) (notPlain : ¬ Plain bad)
    (done : scan .plain ⟨[], words, some (literal head)⟩ (cString (before ++ bad :: after)) =
      .commands [words ++ [literal (head ++ (before ++ bad :: after))]]) : False := by
  rw [cString_plain good, scan_plain good] at done
  -- every byte of the line would have to come out of the reading again
  have short (mode : Mode) (progress : Progress) (line : Bytes) (fresh : held mode = 0)
      (small : progress.size ≤ (words.map (·.text.length)).sum + head.length + before.length)
      (bound : line.length ≤ after.length)
      (done : scan mode progress line = .commands [words ++ [literal (head ++ (before ++ bad :: after))]]) :
      False := by
    have most := scan_size _ _ _ _ done
    simp [literal] at most
    omega
  have current : (⟨[], words, some ⟨head ++ before, false⟩⟩ : Progress).size ≤
      (words.map (·.text.length)).sum + head.length + before.length := by
    simp [Progress.size]; omega
  have cut : (cString after).length ≤ after.length := (List.takeWhile_sublist _).length_le
  by_cases zero : bad = 0
  · subst bad
    exact short .plain _ [] rfl current (by simp) done
  · have shown : cString (bad :: after) = bad :: cString after := by simp [cString, zero]
    have special : kind bad ≠ .ordinary := fun ordinary => notPlain ⟨zero, ordinary⟩
    rw [shown, scan] at done
    split at done
    · exact short _ _ _ rfl (by rwa [Progress.size_endWord]) cut done
    · exact short _ _ _ rfl (by rwa [Progress.size_endCommand]) cut done
    · exact short _ _ _ rfl current cut done
    · exact short _ _ _ rfl (by rwa [Progress.size_opened]) cut done
    · exact short _ _ _ rfl (by rwa [Progress.size_opened]) cut done
    · cases done
    · have has : (Progress.push ⟨[], words, some (⟨(literal head).text ++ before, (literal head).pattern⟩)⟩
          bad true).HasPattern := by simp [Progress.HasPattern, Progress.push]
      obtain ⟨word, member, pattern⟩ := scan_pattern _ _ _ _ done has
      simp only [List.flatten_cons, List.flatten_nil, List.append_nil, List.mem_append, List.mem_singleton] at member
      rcases member with earlier | rfl
      · simp [literals word earlier] at pattern
      · cases pattern
    next ordinary => exact special ordinary

/-- An unquoted operand is read as itself, and as one word, exactly when every byte of it
is plain. Its first part is known to be plain and not to begin a comment or a home
directory. -/
theorem read_operand_iff (words : List Word) (literals : ∀ word ∈ words, word.pattern = false)
    (head tail : Bytes) (begun : head ≠ [])
    (plain : ∀ b ∈ head, Plain b) (first : head.head? ≠ some 35 ∧ head.head? ≠ some 126) :
    scan .plain ⟨[], words, none⟩ (cString (head ++ tail)) =
      .commands [words ++ [literal (head ++ tail)]] ↔ ∀ b ∈ tail, Plain b := by
  obtain ⟨b, head, rfl⟩ := List.exists_cons_of_ne_nil begun
  have start : scan .plain ⟨[], words, none⟩ (cString (b :: head ++ tail)) =
      scan .plain ⟨[], words, some (literal (b :: head))⟩ (cString tail) := by
    have here := plain b (by simp)
    rw [List.head?_cons, ne_eq, ne_eq, Option.some_inj, Option.some_inj] at first
    rw [cString_plain plain, List.cons_append, scan_ordinary here.2 (fun seen => first.1 seen.2) (fun seen => first.2 seen.2)]
    exact scan_plain (fun other member => plain other (by simp [member])) [] words (literal [b]) (cString tail)
  rw [start]
  constructor
  · intro done other member
    by_contra rough
    obtain ⟨before, bad, after, rfl, good, notPlain⟩ := first_rough tail ⟨other, member, rough⟩
    exact lost_at_rough words literals (b :: head) good notPlain done
  · intro allPlain
    have through := scan_plain allPlain [] words (literal (b :: head)) []
    rw [show tail = tail ++ [] by simp, cString_plain allPlain]
    rw [show cString ([] : Bytes) = [] from rfl, through, List.append_nil]
    exact scan_end words (literal (b :: head ++ tail))

end ImageServer.Shell
