import Mathlib.Data.List.Infix
import Mathlib.Data.List.SplitOn

/-! Texts that are cut at a separator of one or more signs. A separator may overlap itself, so the
cuts are settled from the left. -/

namespace ImageServer.Separator

variable {α : Type}

/-- No occurrence of the separator begins inside `piece`. -/
def First (sep piece rest : List α) : Prop :=
  ∀ earlier later, piece ++ rest = earlier ++ later → earlier.length < piece.length → ¬ sep <+: later

/-- The pieces between the leftmost occurrences of the separator, the empty ones among them. -/
inductive Cuts (sep : List α) : List α → List (List α) → Prop where
  | whole {text} (absent : ¬ sep <:+: text) : Cuts sep text [text]
  | cut {piece rest pieces} (first : First sep piece (sep ++ rest)) (later : Cuts sep rest pieces) :
    Cuts sep (piece ++ (sep ++ rest)) (piece :: pieces)

/-- How often the separator occurs, from the left and without overlaps. The number counts the signs
of the last occurrence that are still to come. -/
def occurrences [DecidableEq α] (sep : List α) : Nat → List α → Nat
  | _, [] => 0
  | ahead + 1, _ :: rest => occurrences sep ahead rest
  | 0, b :: rest =>
    if sep <+: b :: rest then occurrences sep (sep.length - 1) rest + 1 else occurrences sep 0 rest

variable {sep piece rest text : List α} {pieces : List (List α)}

theorem First.absent (filled : sep ≠ []) (first : First sep piece rest) : ¬ sep <:+: piece := by
  intro inside
  obtain ⟨earlier, later, rfl⟩ := inside
  apply first earlier (sep ++ (later ++ rest)) (by simp)
  · have long := List.length_pos_of_ne_nil filled
    simp only [List.length_append]
    omega
  · exact List.prefix_append sep _

theorem Cuts.filled (cuts : Cuts sep text pieces) : pieces ≠ [] := by
  cases cuts <;> exact List.cons_ne_nil _ _

theorem Cuts.joined (cuts : Cuts sep text pieces) : sep.intercalate pieces = text := by
  induction cuts with
  | whole absent => exact List.intercalate_singleton
  | @cut piece rest pieces first later ih =>
    rw [List.intercalate_cons_of_ne_nil later.filled, ih, List.append_assoc]

theorem Cuts.apart (filled : sep ≠ []) (cuts : Cuts sep text pieces) : ∀ piece ∈ pieces, ¬ sep <:+: piece := by
  induction cuts with
  | whole absent =>
    intro piece member
    obtain rfl := List.mem_singleton.mp member
    exact absent
  | cut first later ih =>
    intro other member
    rcases List.mem_cons.mp member with here | there
    · subst here
      exact first.absent filled
    · exact ih other there

/-- A separator of one sign cuts wherever it stands. -/
theorem Cuts.single [DecidableEq α] {mark : α} (cuts : Cuts [mark] text pieces) : pieces = text.splitOn mark := by
  induction cuts with
  | whole absent =>
    rw [List.splitOn_eq_singleton]
    intro member
    exact absent ((List.singleton_infix_iff mark _).mpr member)
  | @cut piece rest pieces first later ih =>
    have unmarked : mark ∉ piece := fun member =>
      first.absent (List.cons_ne_nil mark []) ((List.singleton_infix_iff mark _).mpr member)
    rw [List.singleton_append, List.splitOn_append_cons_self_of_not_mem unmarked, ih]

section Occurrences
variable [DecidableEq α]

theorem occurrences_ahead (taken rest : List α) :
    occurrences sep taken.length (taken ++ rest) = occurrences sep 0 rest := by
  induction taken with
  | nil => rfl
  | cons b taken ih => exact ih

theorem occurrences_here (filled : sep ≠ []) (rest : List α) :
    occurrences sep 0 (sep ++ rest) = occurrences sep 0 rest + 1 := by
  obtain ⟨b, sep, rfl⟩ := List.exists_cons_of_ne_nil filled
  have here : b :: sep <+: b :: (sep ++ rest) := List.prefix_append (b :: sep) rest
  rw [List.cons_append, occurrences, if_pos here]
  exact congrArg (· + 1) (occurrences_ahead sep rest)

theorem occurrences_skip {b : α} (notHere : ¬ sep <+: b :: rest) :
    occurrences sep 0 (b :: rest) = occurrences sep 0 rest := by
  rw [occurrences, if_neg notHere]

theorem First.occurrences (first : First sep piece rest) :
    occurrences sep 0 (piece ++ rest) = occurrences sep 0 rest := by
  induction piece with
  | nil => rfl
  | cons b piece ih =>
    have notHere : ¬ sep <+: b :: (piece ++ rest) := first [] _ rfl (Nat.zero_lt_succ _)
    rw [List.cons_append, occurrences_skip notHere]
    apply ih
    intro earlier later split shorter
    exact first (b :: earlier) later (congrArg (b :: ·) split) (Nat.succ_lt_succ shorter)

theorem occurrences_absent (absent : ¬ sep <:+: text) : occurrences sep 0 text = 0 := by
  induction text with
  | nil => rfl
  | cons b rest ih =>
    have notHere : ¬ sep <+: b :: rest := fun here => absent here.isInfix
    rw [occurrences_skip notHere]
    apply ih
    intro inside
    exact absent (inside.trans (List.suffix_cons b rest).isInfix)

theorem Cuts.counted (filled : sep ≠ []) (cuts : Cuts sep text pieces) :
    pieces.length = Separator.occurrences sep 0 text + 1 := by
  induction cuts with
  | whole absent => rw [occurrences_absent absent, List.length_singleton]
  | cut first later ih => rw [first.occurrences, occurrences_here filled, List.length_cons, ih]

end Occurrences
end ImageServer.Separator
