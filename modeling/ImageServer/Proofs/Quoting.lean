import ImageServer.Proofs.Compression

/-! The quotes that the compress worker puts around a path. A shell takes every quote off that it
does not read inside other quotes, so a path that holds a quote itself never comes out as it went
in: the bytes that are left would not suffice. -/

namespace ImageServer
namespace Shell

def unquotedSize (text : Bytes) : Nat := text.countP (· != 39)

def price (b : UInt8) : Nat := if b = 39 then 0 else 1

theorem unquotedSize_nil : unquotedSize [] = 0 := rfl

theorem unquotedSize_cons (b : UInt8) (text : Bytes) : unquotedSize (b :: text) = unquotedSize text + price b := by
  by_cases quote : b = 39 <;> simp [unquotedSize, price, quote]

theorem unquotedSize_append (first second : Bytes) :
    unquotedSize (first ++ second) = unquotedSize first + unquotedSize second := by
  simp [unquotedSize]

theorem unquotedSize_snoc (text : Bytes) (b : UInt8) : unquotedSize (text ++ [b]) = unquotedSize text + price b := by
  rw [unquotedSize_append, unquotedSize_cons]
  simp [unquotedSize]

/-- A word that is finished has cost a byte that ends it. -/
def wordPrice (word : Word) : Nat := unquotedSize word.text + 1

namespace Progress

def weight (progress : Progress) : Nat :=
  (progress.finished.flatten.map wordPrice).sum + (progress.words.map wordPrice).sum +
    (progress.word.toList.map fun word => unquotedSize word.text).sum

theorem weight_opened (progress : Progress) : progress.opened.weight = progress.weight := by
  cases seen : progress.word <;> simp [opened, weight, seen, unquotedSize_nil]

theorem weight_push (progress : Progress) (b : UInt8) (pattern : Bool) :
    (progress.push b pattern).weight = progress.weight + price b := by
  cases seen : progress.word with
  | none => simp [push, weight, seen, unquotedSize_cons, unquotedSize_nil]
  | some word => simp [push, weight, seen, unquotedSize_snoc]; omega

theorem weight_endWord (progress : Progress) : progress.endWord.weight ≤ progress.weight + 1 := by
  cases seen : progress.word with
  | none => simp [endWord, weight, seen]
  | some word => simp [endWord, weight, seen, wordPrice]; omega

theorem weight_endCommand (progress : Progress) : progress.endCommand.weight ≤ progress.weight + 1 := by
  cases seen : progress.word with
  | none =>
    by_cases empty : progress.words = []
    · simp [endCommand, weight, seen, empty]
    · simp [endCommand, weight, seen, empty]
  | some word => simp [endCommand, weight, seen, wordPrice]; omega

theorem weight_finished (progress : Progress) :
    (progress.endCommand.finished.flatten.map wordPrice).sum ≤ progress.weight + 1 := by
  have bound := progress.weight_endCommand
  simp only [weight, endCommand] at bound ⊢
  omega

def HasQuote (progress : Progress) : Prop :=
  ∃ word ∈ progress.finished.flatten ++ progress.words ++ progress.word.toList, 39 ∈ word.text

theorem hasQuote_opened (progress : Progress) : progress.opened.HasQuote ↔ progress.HasQuote := by
  cases seen : progress.word <;> simp [HasQuote, opened, seen, or_and_right, exists_or]

theorem hasQuote_push {progress : Progress} {b : UInt8} {pattern : Bool} (other : b ≠ 39) :
    (progress.push b pattern).HasQuote ↔ progress.HasQuote := by
  cases seen : progress.word <;> simp [HasQuote, push, seen, Ne.symm other, or_and_right, exists_or]

theorem hasQuote_endWord (progress : Progress) : progress.endWord.HasQuote ↔ progress.HasQuote := by
  simp [HasQuote, endWord]

theorem hasQuote_finished (progress : Progress) :
    (∃ word ∈ progress.endCommand.finished.flatten, 39 ∈ word.text) ↔ progress.HasQuote := by
  cases seen : progress.word with
  | none => by_cases empty : progress.words = [] <;> simp [HasQuote, endCommand, seen, empty]
  | some word => simp [HasQuote, endCommand, seen]

theorem hasQuote_endCommand (progress : Progress) : progress.endCommand.HasQuote ↔ progress.HasQuote := by
  rw [← hasQuote_finished progress]
  simp [HasQuote, endCommand]

end Progress

/-- In these modes the next byte may become a literal quote. -/
def Mode.Quotable : Mode → Prop
  | .escape | .double | .doubleEscape => True
  | .plain | .comment | .single => False

theorem price_of_kind {b : UInt8} (other : kind b ≠ .singleQuote) : price b = 1 := by
  apply if_neg
  intro quote
  exact other (by rw [quote]; rfl)

theorem ne_of_kind {b : UInt8} (other : kind b ≠ .singleQuote) : b ≠ 39 := by
  intro quote
  exact other (by rw [quote]; rfl)

theorem Moves.weight {b : UInt8} {mode mode' : Mode} {progress progress' : Progress}
    (moves : Moves b mode progress mode' progress') :
    progress'.weight + held mode' ≤ progress.weight + held mode + price b := by
  cases moves with
  | blank seen =>
    have paid := price_of_kind (b := b) (by simp [seen])
    have more := progress.weight_endWord
    omega
  | separator seen =>
    have paid := price_of_kind (b := b) (by simp [seen])
    have more := progress.weight_endCommand
    omega
  | commentEnd newline =>
    have paid : price b = 1 := by rw [newline]; rfl
    have more := progress.weight_endCommand
    simp only [held]
    omega
  | doubleBackslash backslash =>
    have paid : price b = 1 := by rw [backslash]; rfl
    simp only [held]
    omega
  | doubleKept =>
    have paid : price 92 = 1 := rfl
    simp only [Progress.weight_push, held, paid]
    omega
  | backslash | comment | commented | continued | singleEnd | doubleEnd | doubleContinued => simp only [held]; omega
  | singleQuote | doubleQuote => simp only [Progress.weight_opened, held]; omega
  | wildcard | ordinary | escaped | single | double | doubleEscaped => simp only [Progress.weight_push, held]; omega

/-- Every word but the last one costs a byte that is not a quote. -/
theorem scan_weight {mode : Mode} {progress : Progress} {line : Bytes} {list : List Command}
    (done : scan mode progress line = .commands list) :
    (list.flatten.map wordPrice).sum ≤ progress.weight + held mode + unquotedSize line + 1 := by
  induction line generalizing mode progress with
  | nil =>
    have bound := progress.weight_finished
    rw [scan_nil done]
    omega
  | cons b rest ih =>
    obtain ⟨mode', progress', later, moves⟩ := scan_cons done
    have bound := ih later
    have paid := moves.weight
    rw [unquotedSize_cons]
    omega

theorem Moves.enters {b : UInt8} {mode mode' : Mode} {progress progress' : Progress}
    (moves : Moves b mode progress mode' progress') (before : ¬ mode.Quotable) (after : mode'.Quotable) :
    progress'.weight + held mode' + 1 ≤ progress.weight + price b := by
  cases moves with
  | backslash seen =>
    have paid := price_of_kind (b := b) (by simp [seen])
    simp only [held]
    omega
  | doubleQuote seen =>
    have paid := price_of_kind (b := b) (by simp [seen])
    simp only [Progress.weight_opened, held]
    omega
  | double | doubleBackslash | doubleContinued | doubleEscaped | doubleKept => exact absurd trivial before
  | _ => exact absurd after id

theorem Moves.fresh {b : UInt8} {mode mode' : Mode} {progress progress' : Progress}
    (moves : Moves b mode progress mode' progress') (before : ¬ mode.Quotable) :
    progress'.HasQuote ↔ progress.HasQuote := by
  cases moves with
  | blank => exact progress.hasQuote_endWord
  | separator | commentEnd => exact progress.hasQuote_endCommand
  | singleQuote | doubleQuote => exact progress.hasQuote_opened
  | wildcard seen | ordinary seen => exact Progress.hasQuote_push (ne_of_kind (by simp [seen]))
  | single other => exact Progress.hasQuote_push other
  | escaped | double | doubleEscaped | doubleKept => exact absurd trivial before
  | _ => exact Iff.rfl

/-- A literal quote in some word costs one more: what lets it be literal is not a quote. -/
theorem scan_quote {mode : Mode} {progress : Progress} {line : Bytes} {list : List Command}
    (done : scan mode progress line = .commands list) (quotes : ∃ word ∈ list.flatten, 39 ∈ word.text)
    (unquotable : ¬ mode.Quotable) (fresh : ¬ progress.HasQuote) :
    (list.flatten.map wordPrice).sum ≤ progress.weight + unquotedSize line := by
  induction line generalizing mode progress with
  | nil =>
    rw [scan_nil done, Progress.hasQuote_finished] at quotes
    exact absurd quotes fresh
  | cons b rest ih =>
    obtain ⟨mode', progress', later, moves⟩ := scan_cons done
    rw [unquotedSize_cons]
    by_cases quotable : mode'.Quotable
    · have bound := scan_weight later
      have slack := moves.enters unquotable quotable
      omega
    · have bound := ih later quotable (mt (moves.fresh unquotable).mp fresh)
      have paid := moves.weight
      have empty : held mode = 0 := by cases mode <;> first | rfl | exact absurd trivial unquotable
      omega

end Shell

namespace CompressImage
open Shell
variable {path : Bytes}

/-- A path with a quote in it is not among the words of the line for the optimizer. -/
theorem compressCmd_misread (whole : (0 : UInt8) ∉ path) (quoted : (39 : UInt8) ∈ path) :
    Shell.read (compressCmd path) ≠ .commands [[literal optimizer, literal path, literal (tempFile path)]] := by
  intro done
  have shown : cString (compressCmd path) = compressCmd path := by
    apply cString_whole
    simp [compressCmd_eq, optimizer_plain, whole, tempFile_whole whole]
  rw [Shell.read, shown, compressCmd_eq, scan_quoted optimizer_plain.1, scan_blank, scan_blank] at done
  have quotes : ∃ word ∈ [[literal optimizer, literal path, literal (tempFile path)]].flatten, 39 ∈ word.text :=
    ⟨literal path, by simp, quoted⟩
  have fresh : ¬ (⟨[], [literal optimizer], none⟩ : Progress).HasQuote := by
    simp [Progress.HasQuote, literal, optimizer_plain]
  have bound := scan_quote done quotes id fresh
  simp [wordPrice, Progress.weight, literal, unquotedSize_cons, unquotedSize_append, price, unquotedSize_nil] at bound

/-- Both command lines are read as they are meant exactly when the path has no quote in it. -/
theorem quoting_sound_iff (whole : (0 : UInt8) ∉ path) :
    (Shell.read (compressCmd path) =
        .commands [[literal optimizer, literal path, literal (path ++ bytes ".comps.jpg")]] ∧
      Shell.read (replaceCmd path) =
        .commands [[literal (bytes "mv"), literal (bytes "-f"), literal (path ++ bytes ".comps.jpg"), literal path]]) ↔
      (39 : UInt8) ∉ path := by
  constructor
  · intro sound quoted
    exact compressCmd_misread whole quoted sound.1
  · intro unquoted
    exact ⟨read_compressCmd unquoted whole, read_replaceCmd unquoted whole⟩

/-- Blanks, dollars and semicolons come through. -/
theorem quoting_sound_spaced :
    let path := bytes "/www/images/public/a b;$(c).jpg"
    Shell.read (replaceCmd path) =
      .commands [[literal (bytes "mv"), literal (bytes "-f"), literal (path ++ bytes ".comps.jpg"), literal path]] :=
  ((quoting_sound_iff (by decide)).mpr (by decide)).2

/-- The two quotes of an apostrophe join the path and the temporary path into one word. -/
theorem apostrophe_misread :
    let path := bytes "/www/images/public/it's.jpg"
    Shell.read (compressCmd path) ≠
      .commands [[literal optimizer, literal path, literal (path ++ bytes ".comps.jpg")]] := by
  decide +kernel

end CompressImage
end ImageServer
