import ImageServer.LuaString
import Mathlib.Data.List.Forall2

/-! Perl-compatible regular expressions over bytes: ordered alternatives, greedy repetition of
one class with backtracking, numbered groups, and the end of the subject. `Reads` says what an
expression may read; matching tries the readings in order and is complete for it. -/

namespace ImageServer

inductive Regex where
  | empty
  | single (chars : UInt8 → Bool)
  | many (chars : UInt8 → Bool)
  | cat (first second : Regex)
  | alt (first second : Regex)
  | group (index : Nat) (inner : Regex)
  | eol

namespace Regex

/-- What each group has read. A group that took no part is empty. -/
abbrev Groups := Nat → Bytes

def noGroups : Groups := fun _ => []

/-- Take as many bytes of the class as there are, then give them back one at a time. -/
def manyThen (chars : UInt8 → Bool) (next : Bytes → Option α) : Bytes → Option α
  | [] => next []
  | b :: rest => if chars b then (manyThen chars next rest).or (next (b :: rest)) else next (b :: rest)

/-- Match at the start of the subject and go on with what is left. -/
def exec : Regex → Bytes → Groups → (Bytes → Groups → Option α) → Option α
  | empty, subject, groups, next => next subject groups
  | single _, [], _, _ => none
  | single chars, b :: rest, groups, next => if chars b then next rest groups else none
  | many chars, subject, groups, next => manyThen chars (fun rest => next rest groups) subject
  | cat first second, subject, groups, next => first.exec subject groups fun rest groups => second.exec rest groups next
  | alt first second, subject, groups, next => (first.exec subject groups next).or (second.exec subject groups next)
  | group index inner, subject, groups, next =>
    inner.exec subject groups fun rest groups =>
      next rest (Function.update groups index (subject.take (subject.length - rest.length)))
  | eol, subject, groups, next => if subject = [] ∨ subject = [10] then next subject groups else none

/-- The leftmost match. -/
def search (regex : Regex) : Bytes → Option Groups
  | [] => regex.exec [] noGroups fun _ groups => some groups
  | b :: rest => (regex.exec (b :: rest) noGroups fun _ groups => some groups).or (search regex rest)

def plus (chars : UInt8 → Bool) : Regex := .cat (.single chars) (.many chars)

def optional (inner : Regex) : Regex := .alt inner .empty

/-- Letters match in either case. -/
def caseless (letter : UInt8) (b : UInt8) : Bool :=
  let lower (c : UInt8) : UInt8 := if 65 ≤ c && c ≤ 90 then c + 32 else c
  lower b == lower letter

def literal (text : Bytes) : Regex := text.foldr (fun b regex => .cat (.single (caseless b)) regex) .empty

/-- Letters match in their own case only. -/
def exactly (text : Bytes) : Regex := text.foldr (fun b regex => .cat (.single (· == b)) regex) .empty

/-- The dot reads anything on the line. -/
def dot (b : UInt8) : Bool := b != 10

/-- `regex.Reads text rest groups after`: the expression can read `text` in front of `rest`, and
the groups are then `after`. -/
def Reads : Regex → Bytes → Bytes → Groups → Groups → Prop
  | empty, text, _, groups, after => text = [] ∧ after = groups
  | single chars, text, _, groups, after => (∃ b, text = [b] ∧ chars b = true) ∧ after = groups
  | many chars, text, _, groups, after => (∀ b ∈ text, chars b = true) ∧ after = groups
  | cat first second, text, rest, groups, after =>
    ∃ text1 text2 middle, text = text1 ++ text2 ∧ first.Reads text1 (text2 ++ rest) groups middle ∧
      second.Reads text2 rest middle after
  | alt first second, text, rest, groups, after =>
    first.Reads text rest groups after ∨ second.Reads text rest groups after
  | group index inner, text, rest, groups, after =>
    ∃ middle, inner.Reads text rest groups middle ∧ after = Function.update middle index text
  | eol, text, rest, groups, after => text = [] ∧ (rest = [] ∨ rest = [10]) ∧ after = groups

theorem manyThen_isSome {chars : UInt8 → Bool} {next : Bytes → Option α} {text rest : Bytes}
    (all : ∀ b ∈ text, chars b = true) (done : (next rest).isSome) :
    (manyThen chars next (text ++ rest)).isSome := by
  induction text with
  | nil =>
    cases rest with
    | nil => exact done
    | cons b rest =>
      rw [List.nil_append, manyThen]
      split
      · rw [Option.isSome_or, done, Bool.or_true]
      · exact done
  | cons b text ih =>
    have found := ih fun c member => all c (List.mem_cons_of_mem b member)
    rw [List.cons_append, manyThen, if_pos (all b List.mem_cons_self), Option.isSome_or, found, Bool.true_or]

/-- The run that is read is the longest one that the rest can follow. -/
theorem manyThen_longest {chars : UInt8 → Bool} {next : Bytes → Option α} {subject : Bytes} {result : α}
    (found : manyThen chars next subject = some result) :
    ∃ text rest, subject = text ++ rest ∧ (∀ b ∈ text, chars b = true) ∧ next rest = some result ∧
      ∀ more later, rest = more ++ later → more ≠ [] → (∀ b ∈ more, chars b = true) → next later = none := by
  induction subject with
  | nil =>
    refine ⟨[], [], rfl, by simp, found, ?_⟩
    intro more later split longer
    exact absurd (List.append_eq_nil_iff.mp split.symm).1 longer
  | cons b subject ih =>
    rw [manyThen] at found
    split at found
    next inside =>
      rcases Option.or_eq_some_iff.mp found with longer | ⟨missed, here⟩
      · obtain ⟨text, rest, rfl, all, done, longest⟩ := ih longer
        exact ⟨b :: text, rest, rfl, by simpa [inside] using all, done, longest⟩
      · refine ⟨[], b :: subject, rfl, by simp, here, ?_⟩
        intro more later split longer all
        obtain ⟨other, more, rfl⟩ := List.exists_cons_of_ne_nil longer
        obtain ⟨rfl, rfl⟩ := List.cons.inj split
        have rest : ∀ c ∈ more, chars c = true := fun c member => all c (List.mem_cons_of_mem b member)
        by_contra reached
        have sooner := manyThen_isSome rest (Option.isSome_iff_ne_none.mpr reached)
        exact Option.isSome_iff_ne_none.mp sooner missed
    next outside =>
      refine ⟨[], b :: subject, rfl, by simp, found, ?_⟩
      intro more later split longer all
      obtain ⟨other, more, rfl⟩ := List.exists_cons_of_ne_nil longer
      obtain ⟨rfl, -⟩ := List.cons.inj split
      exact absurd (all b List.mem_cons_self) outside

theorem manyThen_some {chars : UInt8 → Bool} {next : Bytes → Option α} {subject : Bytes} {result : α}
    (found : manyThen chars next subject = some result) :
    ∃ text rest, subject = text ++ rest ∧ (∀ b ∈ text, chars b = true) ∧ next rest = some result := by
  obtain ⟨text, rest, split, all, done, -⟩ := manyThen_longest found
  exact ⟨text, rest, split, all, done⟩

theorem manyThen_all {chars : UInt8 → Bool} {next : Bytes → Option α} {text : Bytes} {result : α}
    (all : ∀ b ∈ text, chars b = true) (done : next [] = some result) : manyThen chars next text = some result := by
  induction text with
  | nil => exact done
  | cons b text ih =>
    have found := ih fun c member => all c (List.mem_cons_of_mem b member)
    rw [manyThen, if_pos (all b List.mem_cons_self), found, Option.some_or]

theorem exec_some {regex : Regex} {subject : Bytes} {groups : Groups} {next : Bytes → Groups → Option α} {result : α}
    (found : regex.exec subject groups next = some result) :
    ∃ text rest after, subject = text ++ rest ∧ regex.Reads text rest groups after ∧ next rest after = some result := by
  induction regex generalizing subject groups next with
  | empty => exact ⟨[], subject, groups, rfl, ⟨rfl, rfl⟩, found⟩
  | single chars =>
    cases subject with
    | nil => cases found
    | cons b rest =>
      rw [exec] at found
      split at found
      next inside => exact ⟨[b], rest, groups, rfl, ⟨⟨b, rfl, inside⟩, rfl⟩, found⟩
      next => cases found
  | many chars =>
    obtain ⟨text, rest, rfl, all, done⟩ := manyThen_some found
    exact ⟨text, rest, groups, rfl, ⟨all, rfl⟩, done⟩
  | cat first second first_ih second_ih =>
    obtain ⟨text1, rest1, middle, rfl, reads1, found1⟩ := first_ih found
    obtain ⟨text2, rest, after, rfl, reads2, done⟩ := second_ih found1
    exact ⟨text1 ++ text2, rest, after, (List.append_assoc ..).symm, ⟨text1, text2, middle, rfl, reads1, reads2⟩, done⟩
  | alt first second first_ih second_ih =>
    rcases Option.or_eq_some_iff.mp found with left | ⟨-, right⟩
    · obtain ⟨text, rest, after, shape, reads, done⟩ := first_ih left
      exact ⟨text, rest, after, shape, Or.inl reads, done⟩
    · obtain ⟨text, rest, after, shape, reads, done⟩ := second_ih right
      exact ⟨text, rest, after, shape, Or.inr reads, done⟩
  | group index inner inner_ih =>
    obtain ⟨text, rest, middle, rfl, reads, done⟩ := inner_ih found
    have taken : (text ++ rest).take ((text ++ rest).length - rest.length) = text := by simp
    rw [taken] at done
    exact ⟨text, rest, _, rfl, ⟨middle, reads, rfl⟩, done⟩
  | eol =>
    rw [exec] at found
    split at found
    next ends => exact ⟨[], subject, groups, rfl, ⟨rfl, ends, rfl⟩, found⟩
    next => cases found

/-- Backtracking misses no reading. -/
theorem exec_isSome {regex : Regex} {text rest : Bytes} {groups after : Groups} {next : Bytes → Groups → Option α}
    (reads : regex.Reads text rest groups after) (done : (next rest after).isSome) :
    (regex.exec (text ++ rest) groups next).isSome := by
  induction regex generalizing text rest groups after next with
  | empty =>
    obtain ⟨rfl, rfl⟩ := reads
    exact done
  | single chars =>
    obtain ⟨⟨b, rfl, inside⟩, rfl⟩ := reads
    rw [List.singleton_append, exec, if_pos inside]
    exact done
  | many chars =>
    obtain ⟨all, rfl⟩ := reads
    exact manyThen_isSome all done
  | cat first second first_ih second_ih =>
    obtain ⟨text1, text2, middle, rfl, reads1, reads2⟩ := reads
    rw [List.append_assoc, exec]
    exact first_ih reads1 (second_ih reads2 done)
  | alt first second first_ih second_ih =>
    rw [exec, Option.isSome_or, Bool.or_eq_true]
    rcases reads with left | right
    · exact Or.inl (first_ih left done)
    · exact Or.inr (second_ih right done)
  | group index inner inner_ih =>
    obtain ⟨middle, inside, rfl⟩ := reads
    have taken : (text ++ rest).take ((text ++ rest).length - rest.length) = text := by simp
    rw [exec]
    apply inner_ih inside
    rw [taken]
    exact done
  | eol =>
    obtain ⟨rfl, ends, rfl⟩ := reads
    rw [List.nil_append, exec, if_pos ends]
    exact done

theorem search_some {regex : Regex} {subject : Bytes} {groups : Groups} (found : regex.search subject = some groups) :
    ∃ before text rest, subject = before ++ (text ++ rest) ∧ regex.Reads text rest noGroups groups := by
  induction subject with
  | nil =>
    obtain ⟨text, rest, after, shape, reads, same⟩ := exec_some found
    obtain rfl := Option.some.inj same
    exact ⟨[], text, rest, shape, reads⟩
  | cons b subject ih =>
    rcases Option.or_eq_some_iff.mp found with here | ⟨-, later⟩
    · obtain ⟨text, rest, after, shape, reads, same⟩ := exec_some here
      obtain rfl := Option.some.inj same
      exact ⟨[], text, rest, shape, reads⟩
    · obtain ⟨before, text, rest, rfl, reads⟩ := ih later
      exact ⟨b :: before, text, rest, rfl, reads⟩

theorem search_isSome {regex : Regex} {before text rest : Bytes} {groups : Groups}
    (reads : regex.Reads text rest noGroups groups) : (regex.search (before ++ (text ++ rest))).isSome := by
  have here : (regex.exec (text ++ rest) noGroups fun _ groups => some groups).isSome := exec_isSome reads rfl
  induction before with
  | nil =>
    rw [List.nil_append]
    cases shape : text ++ rest with
    | nil =>
      rw [shape] at here
      exact here
    | cons b subject =>
      rw [shape] at here
      rw [search, Option.isSome_or, here, Bool.true_or]
  | cons b before ih => rw [List.cons_append, search, Option.isSome_or, ih, Bool.or_true]

/-- A search finds something exactly where there is something to read. -/
theorem search_isSome_iff (regex : Regex) (subject : Bytes) :
    (regex.search subject).isSome ↔
      ∃ before text rest groups, subject = before ++ (text ++ rest) ∧ regex.Reads text rest noGroups groups := by
  constructor
  · intro found
    obtain ⟨groups, hit⟩ := Option.isSome_iff_exists.mp found
    obtain ⟨before, text, rest, shape, reads⟩ := search_some hit
    exact ⟨before, text, rest, groups, shape, reads⟩
  · intro holds
    obtain ⟨before, text, rest, groups, rfl, reads⟩ := holds
    exact search_isSome reads

theorem search_start {regex : Regex} {subject : Bytes} {groups : Groups}
    (here : (regex.exec subject noGroups fun _ groups => some groups) = some groups) :
    regex.search subject = some groups := by
  cases subject with
  | nil => exact here
  | cons b rest => rw [search, here, Option.some_or]

theorem eq_of_caseless {sign b : UInt8} (plain : sign < 65 ∨ 90 < sign ∧ sign < 97) (same : caseless sign b = true) :
    b = sign := by
  simp only [caseless, beq_iff_eq, Bool.and_eq_true, decide_eq_true_eq] at same
  split at same <;> split at same <;> grind

theorem caseless_comm (a b : UInt8) : caseless a b = caseless b a := by
  unfold caseless
  exact Bool.beq_comm

theorem caseless_self (b : UInt8) : caseless b b = true := by simp [caseless]

@[simp] theorem literal_cons (b : UInt8) (text : Bytes) :
    literal (b :: text) = .cat (.single (caseless b)) (literal text) := rfl

theorem exec_literal (text rest : Bytes) (groups : Groups) (next : Bytes → Groups → Option α) :
    (literal text).exec (text ++ rest) groups next = next rest groups := by
  induction text generalizing next with
  | nil => rfl
  | cons b text ih => rw [literal_cons, exec, List.cons_append, exec, if_pos (caseless_self b), ih]

theorem literal_reads {text read rest : Bytes} {groups after : Groups} :
    (literal text).Reads read rest groups after ↔ List.Forall₂ (fun b c => caseless b c = true) text read ∧ after = groups := by
  induction text generalizing read with
  | nil =>
    rw [List.forall₂_nil_left_iff]
    exact Iff.rfl
  | cons b text ih =>
    rw [literal_cons, Reads]
    constructor
    · intro holds
      obtain ⟨text1, text2, middle, rfl, ⟨⟨c, rfl, same⟩, rfl⟩, reads⟩ := holds
      obtain ⟨pairs, rfl⟩ := ih.mp reads
      exact ⟨.cons same pairs, rfl⟩
    · intro holds
      obtain ⟨pairs, rfl⟩ := holds
      cases pairs with
      | @cons _ c _ read same pairs => exact ⟨[c], read, after, rfl, ⟨⟨c, rfl, same⟩, rfl⟩, ih.mpr ⟨pairs, rfl⟩⟩

theorem exactly_reads {text read rest : Bytes} {groups after : Groups} :
    (exactly text).Reads read rest groups after ↔ read = text ∧ after = groups := by
  induction text generalizing read with
  | nil => exact Iff.rfl
  | cons b text ih =>
    constructor
    · intro holds
      obtain ⟨text1, text2, middle, rfl, ⟨⟨c, rfl, same⟩, rfl⟩, reads⟩ := holds
      obtain rfl := eq_of_beq same
      obtain ⟨rfl, rfl⟩ := ih.mp reads
      exact ⟨rfl, rfl⟩
    · intro holds
      obtain ⟨rfl, rfl⟩ := holds
      exact ⟨[b], text, after, rfl, ⟨⟨b, rfl, beq_self_eq_true b⟩, rfl⟩, ih.mpr ⟨rfl, rfl⟩⟩

theorem plus_reads {chars : UInt8 → Bool} {text rest : Bytes} {groups after : Groups} :
    (plus chars).Reads text rest groups after ↔ text ≠ [] ∧ (∀ b ∈ text, chars b = true) ∧ after = groups := by
  constructor
  · intro holds
    obtain ⟨text1, text2, middle, rfl, ⟨⟨b, rfl, inside⟩, rfl⟩, all, rfl⟩ := holds
    exact ⟨by simp, by simpa [inside] using all, rfl⟩
  · intro holds
    obtain ⟨filled, all, rfl⟩ := holds
    obtain ⟨b, text, rfl⟩ := List.exists_cons_of_ne_nil filled
    exact ⟨[b], text, after, rfl, ⟨⟨b, rfl, all b List.mem_cons_self⟩, rfl⟩,
      fun c member => all c (List.mem_cons_of_mem b member), rfl⟩

end Regex
end ImageServer
