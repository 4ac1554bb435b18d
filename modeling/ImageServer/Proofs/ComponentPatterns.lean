import ImageServer.Proofs.PatternMatching
import ImageServer.PathSimbol
import Mathlib.Data.List.TakeWhile

/-! Patterns that begin with a slash and a captured name without slashes. Their first match lies
in the first component of the path that the rest of the pattern matches in, and the name is as long
as it can be. -/

namespace ImageServer
open Lua

def directory (path : Bytes) : Bytes := (path.reverse.dropWhile (· != slash)).reverse

def lastComponent (path : Bytes) : Bytes := (path.reverse.takeWhile (· != slash)).reverse

theorem directory_append (path : Bytes) : directory path ++ lastComponent path = path := by
  rw [directory, lastComponent, ← List.reverse_append, List.takeWhile_append_dropWhile, List.reverse_reverse]

theorem lastComponent_plain (path : Bytes) : slash ∉ lastComponent path := by
  intro member
  have other := List.mem_takeWhile_imp (List.mem_reverse.mp member)
  simp at other

theorem directory_folder {path : Bytes} (slashed : slash ∈ path) : IsFolder (directory path) := by
  cases rest : path.reverse.dropWhile (· != slash) with
  | nil =>
    have all := List.dropWhile_eq_nil_iff.mp rest slash (by simpa using slashed)
    simp at all
  | cons b tail =>
    have head := @List.head_dropWhile_not _ (· != slash) path.reverse (by simp [rest])
    simp only [rest, List.head_cons, bne_eq_false_iff_eq] at head
    exact ⟨tail.reverse, by simp [directory, rest, head]⟩

theorem split_name {name : Bytes} (plain : slash ∉ name) (path : Bytes) :
    directory (path ++ name) = directory path ∧ lastComponent (path ++ name) = lastComponent path ++ name := by
  have other : ∀ b ∈ name.reverse, (b != slash) = true := by
    intro b member
    exact bne_iff_ne.mpr fun same => plain (same ▸ List.mem_reverse.mp member)
  simp only [directory, lastComponent, List.reverse_append, List.dropWhile_append_of_pos other,
    List.takeWhile_append_of_pos other, List.reverse_reverse, and_self]

theorem split_slashed (path folder : Bytes) : directory (path ++ (folder ++ [slash])) = path ++ (folder ++ [slash]) ∧
    lastComponent (path ++ (folder ++ [slash])) = [] := by
  simp [directory, lastComponent]

/-- What stands between two slashes of a path. -/
def Between (component path : Bytes) : Prop :=
  slash ∉ component ∧ ∃ before after, path = before ++ slash :: (component ++ slash :: after)

/-- A slash of a path is the last one, or a whole component follows it. -/
theorem slash_cases {folder last before tail : Bytes} (ends : IsFolder folder)
    (same : folder ++ last = before ++ slash :: tail) (plain : slash ∉ last) :
    (folder = before ++ [slash] ∧ tail = last) ∨
      ∃ component after, slash ∉ component ∧ folder = before ++ slash :: (component ++ slash :: after) ∧
        tail = component ++ slash :: (after ++ last) := by
  obtain ⟨start, rfl⟩ := ends
  rw [List.append_assoc, List.singleton_append] at same
  rcases List.append_eq_append_iff.mp same with ⟨between, rfl, rest⟩ | ⟨between, rfl, rest⟩
  · cases between with
    | nil => exact Or.inl ⟨by simp, (List.cons.inj rest).2.symm⟩
    | cons b between =>
      have inside := (List.cons.inj rest).2
      exact absurd (inside ▸ by simp) plain
  · cases between with
    | nil => exact Or.inl ⟨by simp, (List.cons.inj rest).2⟩
    | cons b between =>
      obtain ⟨rfl, rfl⟩ := List.cons.inj rest
      have slashed : slash ∈ between ++ [slash] := by simp
      obtain ⟨component, after, split, first⟩ := List.eq_append_cons_of_mem slashed
      refine Or.inr ⟨component, after, first, ?_, ?_⟩
      · simp [split]
      · calc between ++ slash :: last = (between ++ [slash]) ++ last := by simp
          _ = component ++ slash :: (after ++ last) := by simp [split]

/-- A text without slashes at the start of a component is a part of it. -/
theorem prefix_of_component {text rest component after : Bytes} (plain : slash ∉ text)
    (same : text ++ rest = component ++ slash :: after) : ∃ more, component = text ++ more := by
  rcases List.append_eq_append_iff.mp same with ⟨between, split, -⟩ | ⟨between, rfl, tail⟩
  · exact ⟨between, split⟩
  · cases between with
    | nil => exact ⟨[], by simp⟩
    | cons b between =>
      obtain ⟨rfl, -⟩ := List.cons.inj tail
      simp at plain

/-- A run of one kind of bytes ends at the first byte of another kind. -/
theorem split_after_run {inside : UInt8 → Prop} {first first' second second' : Bytes} {stop stop' : UInt8}
    (all : ∀ b ∈ first, inside b) (all' : ∀ b ∈ first', inside b) (stops : ¬ inside stop) (stops' : ¬ inside stop')
    (same : first ++ stop :: second = first' ++ stop' :: second') :
    first = first' ∧ stop = stop' ∧ second = second' := by
  rcases List.append_eq_append_iff.mp same with ⟨between, rfl, tail⟩ | ⟨between, rfl, tail⟩
  · cases between with
    | nil => exact ⟨by simp, List.cons.inj tail⟩
    | cons b between =>
      obtain ⟨rfl, -⟩ := List.cons.inj tail
      exact absurd (all' stop (by simp)) stops
  · cases between with
    | nil => exact ⟨by simp, (List.cons.inj tail).1.symm, (List.cons.inj tail).2.symm⟩
    | cons b between =>
      obtain ⟨rfl, -⟩ := List.cons.inj tail
      exact absurd (all stop' (by simp)) stops'

/-- Of two names before a mark the second is as long as the first, and it is not longer if it leaves
as many marks. -/
theorem split_at_marks {mark : UInt8} {first first' second second' : Bytes}
    (same : first ++ mark :: second = first' ++ mark :: second') (marks : second.count mark ≤ second'.count mark)
    (longest : ∀ more, mark :: second' = more ++ mark :: second → more = []) : first = first' ∧ second = second' := by
  rcases List.append_eq_append_iff.mp same with ⟨between, rfl, tail⟩ | ⟨between, rfl, tail⟩
  · cases between with
    | nil => exact ⟨by simp, (List.cons.inj tail).2⟩
    | cons b between =>
      have shape : second = between ++ mark :: second' := (List.cons.inj tail).2
      rw [shape, List.count_append, List.count_cons_self] at marks
      omega
  · obtain rfl := longest between tail
    exact ⟨by simp, (List.cons.inj tail).2.symm⟩

namespace Lua
variable {items : Pattern} {path : Bytes}

/-- The pattern for a slash, a captured name and what follows the name. -/
def componentPattern (items : Pattern) : Pattern :=
  .single (.byte 47) .one :: .opening :: .single (.set true [(47, 47)]) .star :: .closing :: items

theorem name_class {name : Bytes} :
    (∀ b ∈ name, (Class.set true [(47, 47)]).mem b = true) ↔ slash ∉ name := by
  have one (b : UInt8) : (Class.set true [(47, 47)]).mem b = true ↔ b ≠ slash := by
    simp [Class.mem, slash, UInt8.le_iff_toNat_le, ← UInt8.toNat_inj]
  constructor
  · intro all member
    exact (one slash).mp (all slash member) rfl
  · intro plain b member
    exact (one b).mpr fun same => plain (same ▸ member)

theorem fits_component {name rest : Bytes} (plain : slash ∉ name) (fits : Fits items rest) :
    Fits (componentPattern items) (slash :: (name ++ rest)) :=
  Fits.one (by decide) (Fits.opening (Fits.star (name_class.mpr plain) (Fits.closing fits)))

/-- What the first match of such a pattern says about the path. -/
theorem component_some {found : Found} (hit : findFrom (componentPattern items) path 1 = some found) :
    ∃ before name rest last captures,
      path = before ++ slash :: (name ++ rest) ∧ slash ∉ name ∧ found.first = before.length + 1 ∧
      matchItems items rest [⟨name ++ rest, some name⟩] = some (last, captures) ∧
      found.captures = captures.filterMap (·.text) ∧
      (∀ more later, rest = more ++ later → more ≠ [] → slash ∉ more → ¬ Fits items later) ∧
      ∀ earlier other later, path = earlier ++ slash :: (other ++ later) → slash ∉ other →
        earlier.length < before.length → ¬ Fits items later := by
  obtain ⟨before, tail, last, captures, rfl, done, first, texts, leftmost⟩ := findFrom_some hit
  obtain ⟨b, tail, rfl, slashed, named⟩ := match_one done
  obtain rfl : b = slash := by simpa [Class.mem, slash] using slashed
  rw [matchItems, matchItems] at named
  obtain ⟨name, rest, rfl, all, done, longest⟩ := maxExpand_longest named
  have plain := name_class.mp all
  rw [matchItems, closeCapture_last (by simp [Closed])] at done
  refine ⟨before, name, rest, last, captures, rfl, plain, by omega, done, texts, ?_, ?_⟩
  · intro more later split longer plainMore
    have missed := longest more later split longer (name_class.mpr plainMore)
    rw [matchItems] at missed
    exact not_fits_iff.mpr missed
  · intro earlier other later split plainOther shorter fits
    exact not_fits_iff.mpr (leftmost earlier _ split shorter) (fits_component plainOther fits)

def Contains (items : Pattern) (text : Bytes) : Prop := ∃ before tail, text = before ++ tail ∧ Fits items tail

variable {folder last : Bytes}

/-- A name and what the items match after it lie in the last component, or in one before it. -/
theorem component_place (inert : Pattern.takes items slash = false) (takes : ¬ Fits items [])
    (ends : IsFolder folder) (plain : slash ∉ last)
    {before name rest : Bytes} (same : folder ++ last = before ++ slash :: (name ++ rest)) (plainName : slash ∉ name)
    (fits : Fits items rest) :
    (folder = before ++ [slash] ∧ name ++ rest = last) ∨
      ∃ inner after, slash ∉ inner ∧ folder = before ++ slash :: (inner ++ slash :: after) ∧
        Contains items inner ∧ name.length < inner.length := by
  rcases slash_cases ends same plain with here | ⟨inner, after, plainInner, shape, tail⟩
  · exact Or.inl here
  obtain ⟨taken, left, rfl, all, keeps⟩ := fits.taken
  have plainTaken : slash ∉ taken := by
    intro member
    rw [all slash member] at inert
    cases inert
  have plainBoth : slash ∉ name ++ taken := by simp [plainName, plainTaken]
  obtain ⟨more, rfl⟩ := prefix_of_component plainBoth ((List.append_assoc ..).trans tail)
  have some : 0 < taken.length := by
    by_contra none
    have empty := List.eq_nil_of_length_eq_zero (Nat.eq_zero_of_not_pos none)
    exact takes (by simpa [empty] using keeps [])
  refine Or.inr ⟨_, after, plainInner, shape, ⟨name, taken ++ more, by simp, keeps more⟩, ?_⟩
  simp only [List.length_append]
  omega

/-- Unless a component before it holds a match, the first match lies in the last component. -/
theorem component_last (inert : Pattern.takes items slash = false) (takes : ¬ Fits items [])
    (ends : IsFolder folder) (plain : slash ∉ last)
    (clear : ∀ inner, Between inner folder → ¬ Contains items inner) {found : Found}
    (hit : findFrom (componentPattern items) (folder ++ last) 1 = some found) :
    ∃ name rest left captures,
      last = name ++ rest ∧ found.first = folder.length ∧
      matchItems items rest [⟨name ++ rest, some name⟩] = some (left, captures) ∧
      found.captures = captures.filterMap (·.text) ∧
      ∀ more later, rest = more ++ later → more ≠ [] → ¬ Fits items later := by
  obtain ⟨before, name, rest, left, captures, shape, plainName, first, done, texts, longest, -⟩ := component_some hit
  rcases component_place inert takes ends plain shape plainName (fits_of_some done) with ⟨rfl, rfl⟩ | inside
  · refine ⟨name, rest, left, captures, rfl, by simp [first], done, texts, ?_⟩
    intro more later split longer
    refine longest more later split longer ?_
    intro member
    exact plain (by simp [split, member])
  · obtain ⟨inner, after, plainInner, split, contains, -⟩ := inside
    exact absurd contains (clear inner ⟨plainInner, before, after, split⟩)

/-- A component that holds a match takes the first match away from the last one. -/
theorem component_inner (inert : Pattern.takes items slash = false) (takes : ¬ Fits items [])
    (ends : IsFolder folder) (plain : slash ∉ last)
    {inner : Bytes} (between : Between inner folder) (contains : Contains items inner) :
    ∃ found name rest left captures,
      findFrom (componentPattern items) (folder ++ last) 1 = some found ∧
      matchItems items rest [⟨name ++ rest, some name⟩] = some (left, captures) ∧
      found.captures = captures.filterMap (·.text) ∧ found.first + name.length + 1 < folder.length := by
  obtain ⟨plainInner, earlier, after, shape⟩ := between
  obtain ⟨other, tail, rfl, fits⟩ := contains
  obtain ⟨taken, left, rfl, -, keeps⟩ := fits.taken
  have plainOther : slash ∉ other := fun member => plainInner (by simp [member])
  have there : folder ++ last =
      earlier ++ slash :: (other ++ (taken ++ (left ++ slash :: (after ++ last)))) := by simp [shape]
  have some : (findFrom (componentPattern items) (folder ++ last) 1).isSome = true :=
    (findFrom_isSome_iff ..).mpr ⟨earlier, _, there, fits_component plainOther (keeps _)⟩
  obtain ⟨found, hit⟩ := Option.isSome_iff_exists.mp some
  obtain ⟨before, name, rest, left', captures, split, plainName, first, done, texts, -, leftmost⟩ := component_some hit
  refine ⟨found, name, rest, left', captures, hit, done, texts, ?_⟩
  have early : before.length ≤ earlier.length := by
    by_contra later
    exact leftmost earlier other _ there plainOther (by omega) (keeps _)
  rcases component_place inert takes ends plain split plainName (fits_of_some done) with ⟨same, -⟩ | inside
  · have long := congrArg List.length (shape.symm.trans same)
    simp at long
    omega
  · obtain ⟨inner, after', -, place, -, short⟩ := inside
    have long := congrArg List.length place
    simp at long
    omega

end Lua
end ImageServer
