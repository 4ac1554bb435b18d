import ImageServer.LuaPattern

/-! What a successful match says about its subject. Each rule takes one item, or one
captured run, off the pattern. -/

namespace ImageServer.Lua

theorem Class.mem_set {ranges : List (UInt8 × UInt8)} {b : UInt8} :
    (Class.set false ranges).mem b = true ↔ ∃ range ∈ ranges, range.1 ≤ b ∧ b ≤ range.2 := by
  simp [Class.mem]

theorem Class.eq_of_mem {b c : UInt8} (inside : (Class.set false [(c, c)]).mem b = true) : b = c := by
  obtain ⟨range, listed, low, high⟩ := Class.mem_set.mp inside
  obtain rfl := List.mem_singleton.mp listed
  exact UInt8.le_antisymm high low

theorem maxExpand_none {chars : Class} {next : Bytes → Option α} {taken rest : Bytes}
    (missed : maxExpand chars next (taken ++ rest) = none) (all : ∀ b ∈ taken, chars.mem b = true) :
    next rest = none := by
  induction taken with
  | nil =>
    cases rest with
    | nil => exact missed
    | cons b rest =>
      rw [List.nil_append, maxExpand] at missed
      split at missed
      · exact (Option.or_eq_none_iff.mp missed).2
      · exact missed
  | cons b taken ih =>
    rw [List.cons_append, maxExpand, if_pos (all b (by simp))] at missed
    exact ih (Option.or_eq_none_iff.mp missed).1 (fun other member => all other (by simp [member]))

/-- The run that is taken is the longest one after which the rest of the pattern matches. -/
theorem maxExpand_longest {chars : Class} {next : Bytes → Option α} {subject : Bytes} {result : α}
    (found : maxExpand chars next subject = some result) :
    ∃ taken rest, subject = taken ++ rest ∧ (∀ b ∈ taken, chars.mem b = true) ∧ next rest = some result ∧
      ∀ more later, rest = more ++ later → more ≠ [] → (∀ b ∈ more, chars.mem b = true) → next later = none := by
  induction subject with
  | nil =>
    refine ⟨[], [], rfl, by simp, found, ?_⟩
    intro more later split longer
    exact absurd (List.append_eq_nil_iff.mp split.symm).1 longer
  | cons b rest ih =>
    rw [maxExpand] at found
    split at found
    next inside =>
      rcases Option.or_eq_some_iff.mp found with longer | ⟨missed, here⟩
      · obtain ⟨taken, later, rfl, all, done, longest⟩ := ih longer
        exact ⟨b :: taken, later, rfl, by simpa [inside] using all, done, longest⟩
      · refine ⟨[], b :: rest, rfl, by simp, here, ?_⟩
        intro more later split longer all
        obtain ⟨other, more, rfl⟩ := List.exists_cons_of_ne_nil longer
        obtain ⟨rfl, rfl⟩ := List.cons.inj split
        exact maxExpand_none missed (fun other member => all other (by simp [member]))
    next outside =>
      refine ⟨[], b :: rest, rfl, by simp, found, ?_⟩
      intro more later split longer all
      obtain ⟨other, more, rfl⟩ := List.exists_cons_of_ne_nil longer
      obtain ⟨rfl, -⟩ := List.cons.inj split
      exact absurd (all b (by simp)) outside

theorem maxExpand_some {chars : Class} {next : Bytes → Option α} {subject : Bytes} {result : α}
    (found : maxExpand chars next subject = some result) :
    ∃ taken rest, subject = taken ++ rest ∧ (∀ b ∈ taken, chars.mem b = true) ∧ next rest = some result := by
  obtain ⟨taken, rest, split, all, done, -⟩ := maxExpand_longest found
  exact ⟨taken, rest, split, all, done⟩

variable {chars : Class} {items : Pattern} {subject : Bytes} {captures : List Capture}
  {result : Bytes × List Capture}

theorem match_nil (found : matchItems [] subject captures = some result) : result = (subject, captures) := by
  rw [matchItems_nil] at found
  exact (Option.some.inj found).symm

theorem match_one (found : matchItems (.single chars .one :: items) subject captures = some result) :
    ∃ b rest, subject = b :: rest ∧ chars.mem b = true ∧ matchItems items rest captures = some result := by
  cases subject with
  | nil => simp [matchItems] at found
  | cons b rest =>
    rw [matchItems] at found
    split at found
    · exact ⟨b, rest, rfl, ‹_›, found⟩
    · cases found

theorem match_star (found : matchItems (.single chars .star :: items) subject captures = some result) :
    ∃ taken rest, subject = taken ++ rest ∧ (∀ b ∈ taken, chars.mem b = true) ∧
      matchItems items rest captures = some result := by
  rw [matchItems] at found
  exact maxExpand_some found

theorem match_plus (found : matchItems (.single chars .plus :: items) subject captures = some result) :
    ∃ taken rest, subject = taken ++ rest ∧ taken ≠ [] ∧ (∀ b ∈ taken, chars.mem b = true) ∧
      matchItems items rest captures = some result := by
  cases subject with
  | nil => simp [matchItems] at found
  | cons b subject =>
    rw [matchItems] at found
    split at found
    next inside =>
      obtain ⟨taken, rest, rfl, all, done⟩ := maxExpand_some found
      exact ⟨b :: taken, rest, rfl, by simp, by simpa [inside] using all, done⟩
    next => cases found

theorem match_option (found : matchItems (.single chars .option :: items) subject captures = some result) :
    ∃ taken rest, subject = taken ++ rest ∧ taken.length ≤ 1 ∧ (∀ b ∈ taken, chars.mem b = true) ∧
      matchItems items rest captures = some result := by
  cases subject with
  | nil => exact ⟨[], [], rfl, by simp, by simp, by simpa [matchItems] using found⟩
  | cons b rest =>
    rw [matchItems] at found
    split at found
    next inside =>
      rcases Option.or_eq_some_iff.mp found with taken | ⟨_, left⟩
      · exact ⟨[b], rest, rfl, by simp, by simpa using inside, taken⟩
      · exact ⟨[], b :: rest, rfl, by simp, by simp, left⟩
    next => exact ⟨[], b :: rest, rfl, by simp, by simp, found⟩

def Closed (captures : List Capture) : Prop := ∀ capture ∈ captures, capture.text.isSome = true

theorem Closed.snoc (closed : Closed captures) (start text : Bytes) :
    Closed (captures ++ [⟨start, some text⟩]) := by
  intro capture member
  rcases List.mem_append.mp member with earlier | last
  · exact closed capture earlier
  · simp_all

/-- The capture opened last takes what was matched since. -/
theorem closeCapture_last (closed : Closed captures) (taken rest : Bytes) :
    closeCapture rest (captures ++ [⟨taken ++ rest, none⟩]) = captures ++ [⟨taken ++ rest, some taken⟩] := by
  induction captures with
  | nil => simp [closeCapture]
  | cons capture later ih =>
    have shut : capture.text.isSome = true := closed capture (by simp)
    have rest := ih (fun other member => closed other (by simp [member]))
    simp [closeCapture, shut, rest]

theorem capture_plus (closed : Closed captures)
    (found : matchItems (.opening :: .single chars .plus :: .closing :: items) subject captures = some result) :
    ∃ taken rest, subject = taken ++ rest ∧ taken ≠ [] ∧ (∀ b ∈ taken, chars.mem b = true) ∧
      matchItems items rest (captures ++ [⟨subject, some taken⟩]) = some result := by
  rw [matchItems] at found
  obtain ⟨taken, rest, rfl, some, all, done⟩ := match_plus found
  rw [matchItems, closeCapture_last closed] at done
  exact ⟨taken, rest, rfl, some, all, done⟩

theorem capture_option (closed : Closed captures)
    (found : matchItems (.opening :: .single chars .option :: .closing :: items) subject captures = some result) :
    ∃ taken rest, subject = taken ++ rest ∧ taken.length ≤ 1 ∧ (∀ b ∈ taken, chars.mem b = true) ∧
      matchItems items rest (captures ++ [⟨subject, some taken⟩]) = some result := by
  rw [matchItems] at found
  obtain ⟨taken, rest, rfl, short, all, done⟩ := match_option found
  rw [matchItems, closeCapture_last closed] at done
  exact ⟨taken, rest, rfl, short, all, done⟩

def Fits (pattern : Pattern) (text : Bytes) : Prop := (matchItems pattern text []).isSome = true

theorem maxExpand_isSome {chars : Class} {next next' : Bytes → Option α}
    (same : ∀ rest, (next rest).isSome = (next' rest).isSome) (subject : Bytes) :
    (maxExpand chars next subject).isSome = (maxExpand chars next' subject).isSome := by
  induction subject with
  | nil => exact same []
  | cons b rest ih =>
    rw [maxExpand, maxExpand]
    split
    · rw [Option.isSome_or, Option.isSome_or, ih, same]
    · exact same _

/-- What has been captured does not decide whether the rest matches. -/
theorem matchItems_isSome (pattern : Pattern) (text : Bytes) (captures captures' : List Capture) :
    (matchItems pattern text captures).isSome = (matchItems pattern text captures').isSome := by
  induction pattern generalizing text captures captures' with
  | nil => rfl
  | cons item items ih =>
    cases item with
    | opening => exact ih ..
    | closing => exact ih ..
    | single chars times =>
      cases times with
      | star => exact maxExpand_isSome (fun rest => ih ..) text
      | one =>
        cases text with
        | nil => rfl
        | cons b rest =>
          rw [matchItems, matchItems]
          split
          · exact ih ..
          · rfl
      | plus =>
        cases text with
        | nil => rfl
        | cons b rest =>
          rw [matchItems, matchItems]
          split
          · exact maxExpand_isSome (fun rest => ih ..) rest
          · rfl
      | option =>
        cases text with
        | nil => exact ih ..
        | cons b rest =>
          rw [matchItems, matchItems]
          split
          · rw [Option.isSome_or, Option.isSome_or, ih rest _ captures', ih (b :: rest) _ captures']
          · exact ih ..

theorem fits_of_some (found : matchItems items subject captures = some result) : Fits items subject := by
  rw [Fits, matchItems_isSome items subject [] captures, found]
  rfl

theorem not_fits_iff : ¬ Fits items subject ↔ matchItems items subject captures = none := by
  rw [Fits, matchItems_isSome items subject [] captures]
  simp

theorem Fits.one {b : UInt8} (inside : chars.mem b = true) (later : Fits items subject) :
    Fits (.single chars .one :: items) (b :: subject) := by
  simpa [Fits, matchItems, inside] using later

theorem Fits.star {taken : Bytes} (all : ∀ b ∈ taken, chars.mem b = true) (later : Fits items subject) :
    Fits (.single chars .star :: items) (taken ++ subject) := by
  by_contra missed
  have none : matchItems (.single chars .star :: items) (taken ++ subject) [] = none := not_fits_iff.mp missed
  rw [matchItems] at none
  exact not_fits_iff.mpr (maxExpand_none none all) later

theorem Fits.plus {taken : Bytes} (some : taken ≠ []) (all : ∀ b ∈ taken, chars.mem b = true)
    (later : Fits items subject) : Fits (.single chars .plus :: items) (taken ++ subject) := by
  obtain ⟨b, taken, rfl⟩ := List.exists_cons_of_ne_nil some
  have rest := later.star (fun other (member : other ∈ taken) => all other (by simp [member]))
  simpa [Fits, matchItems, all b (by simp)] using rest

theorem Fits.option {taken : Bytes} (short : taken.length ≤ 1) (all : ∀ b ∈ taken, chars.mem b = true)
    (later : Fits items subject) : Fits (.single chars .option :: items) (taken ++ subject) := by
  match taken with
  | [] =>
    cases subject with
    | nil => exact later
    | cons b rest =>
      simp only [List.nil_append, Fits, matchItems] at later ⊢
      split <;> simp [later]
  | [b] =>
    simp only [Fits] at later
    simp [Fits, matchItems, all b (by simp), later]
  | _ :: _ :: _ => simp at short

theorem Fits.opening (later : Fits items subject) : Fits (.opening :: items) subject := by
  rwa [Fits, matchItems, matchItems_isSome items subject _ []]

theorem Fits.closing (later : Fits items subject) : Fits (.closing :: items) subject := later

def Pattern.takes (pattern : Pattern) (b : UInt8) : Bool :=
  pattern.any fun item => match item with
    | .single chars _ => chars.mem b
    | .opening | .closing => false

theorem Pattern.takes_first {b : UInt8} {times : Quantifier} (inside : chars.mem b = true) :
    Pattern.takes (.single chars times :: items) b = true := by
  simp [Pattern.takes, inside]

theorem Pattern.takes_later {b : UInt8} {item : Item} (later : Pattern.takes items b = true) :
    Pattern.takes (item :: items) b = true := by
  simp only [Pattern.takes, List.any_cons] at later ⊢
  rw [later, Bool.or_true]

/-- A match depends on nothing but what it takes. -/
theorem Fits.taken {pattern : Pattern} {text : Bytes} (fits : Fits pattern text) :
    ∃ taken rest, text = taken ++ rest ∧ (∀ b ∈ taken, pattern.takes b = true) ∧
      ∀ other, Fits pattern (taken ++ other) := by
  induction pattern generalizing text with
  | nil => exact ⟨[], text, rfl, by simp, fun _ => rfl⟩
  | cons item items ih =>
    obtain ⟨result, done⟩ := Option.isSome_iff_exists.mp fits
    -- a run that the first item takes comes before what the others take
    have combine {run rest : Bytes} (later : Fits items rest) (runs : ∀ b ∈ run, Pattern.takes (item :: items) b = true)
        (builds : ∀ {subject}, Fits items subject → Fits (item :: items) (run ++ subject)) :
        ∃ taken left, run ++ rest = taken ++ left ∧ (∀ b ∈ taken, Pattern.takes (item :: items) b = true) ∧
          ∀ other, Fits (item :: items) (taken ++ other) := by
      obtain ⟨taken, left, rfl, all, keeps⟩ := ih later
      refine ⟨run ++ taken, left, by simp, ?_, ?_⟩
      · intro b member
        rcases List.mem_append.mp member with first | second
        · exact runs b first
        · exact Pattern.takes_later (all b second)
      · intro other
        rw [List.append_assoc]
        exact builds (keeps other)
    cases item with
    | opening => exact @combine [] text (fits_of_some done) (by simp) Fits.opening
    | closing => exact @combine [] text (fits_of_some done) (by simp) Fits.closing
    | single chars times =>
      cases times with
      | one =>
        obtain ⟨b, rest, rfl, inside, later⟩ := match_one done
        exact @combine [b] rest (fits_of_some later) (by simpa using Pattern.takes_first inside) (Fits.one inside)
      | star =>
        obtain ⟨run, rest, rfl, all, later⟩ := match_star done
        exact combine (fits_of_some later) (fun b member => Pattern.takes_first (all b member)) (Fits.star all)
      | plus =>
        obtain ⟨run, rest, rfl, some, all, later⟩ := match_plus done
        exact combine (fits_of_some later) (fun b member => Pattern.takes_first (all b member)) (Fits.plus some all)
      | option =>
        obtain ⟨run, rest, rfl, short, all, later⟩ := match_option done
        exact combine (fits_of_some later) (fun b member => Pattern.takes_first (all b member)) (Fits.option short all)

/-- The leftmost match stands somewhere in the subject, and nowhere before. -/
theorem findFrom_some {pattern : Pattern} {subject : Bytes} {position : Nat} {found : Found}
    (hit : findFrom pattern subject position = some found) :
    ∃ before tail rest captures, subject = before ++ tail ∧
      matchItems pattern tail [] = some (rest, captures) ∧
      found.first = position + before.length ∧ found.captures = captures.filterMap (·.text) ∧
      ∀ earlier later, subject = earlier ++ later → earlier.length < before.length →
        matchItems pattern later [] = none := by
  induction subject generalizing position with
  | nil =>
    rw [findFrom] at hit
    split at hit
    next rest captures done =>
      cases hit
      exact ⟨[], [], rest, captures, rfl, done, rfl, rfl, by simp⟩
    next => cases hit
  | cons b subject ih =>
    rw [findFrom] at hit
    split at hit
    next rest captures done =>
      cases hit
      exact ⟨[], b :: subject, rest, captures, rfl, done, rfl, rfl, by simp⟩
    next missed =>
      obtain ⟨before, tail, rest, captures, rfl, done, first, texts, none⟩ := ih hit
      refine ⟨b :: before, tail, rest, captures, rfl, done, by simp [first]; omega, texts, ?_⟩
      intro earlier later split shorter
      cases earlier with
      | nil => cases split; exact missed
      | cons other earlier =>
        have same := (List.cons.inj split).2
        exact none earlier later same (by simpa using shorter)

theorem findFrom_none {pattern : Pattern} {before tail : Bytes} {position : Nat}
    (missed : findFrom pattern (before ++ tail) position = none) : ¬ Fits pattern tail := by
  induction before generalizing position with
  | nil =>
    intro fits
    obtain ⟨result, done⟩ := Option.isSome_iff_exists.mp fits
    cases tail <;>
    · simp only [List.nil_append, findFrom, done, reduceCtorEq] at missed
  | cons b before ih =>
    rw [List.cons_append, findFrom] at missed
    split at missed
    · cases missed
    · exact ih missed

theorem findFrom_isSome_iff (pattern : Pattern) (subject : Bytes) (position : Nat) :
    (findFrom pattern subject position).isSome = true ↔ ∃ before tail, subject = before ++ tail ∧ Fits pattern tail := by
  constructor
  · intro found
    obtain ⟨found, hit⟩ := Option.isSome_iff_exists.mp found
    obtain ⟨before, tail, rest, captures, split, done, -⟩ := findFrom_some hit
    exact ⟨before, tail, split, fits_of_some done⟩
  · intro fits
    obtain ⟨before, tail, rfl, fits⟩ := fits
    by_contra missed
    exact findFrom_none (Option.not_isSome_iff_eq_none.mp missed) fits

theorem find_compiled {text : Bytes} {pattern : Pattern} (compiled : compile text = some pattern) (subject : Bytes) :
    find subject text 1 = findFrom pattern subject 1 := by
  simp [find, compiled]

end ImageServer.Lua
