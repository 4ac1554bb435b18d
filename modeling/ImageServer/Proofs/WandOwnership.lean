import ImageServer.Runs
import ImageServer.WandOwnership
import Mathlib.Data.List.Nodup

/-! A wand is destroyed twice when its picture could not be read and its image is collected
afterwards, and at no other time. -/

namespace ImageServer.WandOwnership

theorem step_read (heap : Heap) (path : Bytes) : step heap (.new path true) =
    { heap with created := heap.created + 1, finalizers := heap.finalizers ++ [heap.created] } := rfl

theorem step_unread (heap : Heap) (path : Bytes) : step heap (.new path false) =
    { created := heap.created + 1, finalizers := heap.finalizers ++ [heap.created],
      unread := heap.unread ++ [heap.created], destroyed := heap.destroyed ++ [heap.created] } := rfl

theorem step_collect (heap : Heap) (wand : Nat) : step heap (.collect wand) =
    if wand ∈ heap.finalizers then
      { heap with finalizers := heap.finalizers.erase wand, destroyed := heap.destroyed ++ [wand] }
    else heap := by
  simp only [step, collect, Exec.bind_run, Exec.get_run]
  split <;> rfl

/-- A wand that is still to be finalized has been destroyed exactly if its picture was not read. -/
structure Owned (heap : Heap) : Prop where
  pending_once : heap.finalizers.Nodup
  pending_made : ∀ wand ∈ heap.finalizers, wand < heap.created
  unread_made : ∀ wand ∈ heap.unread, wand < heap.created
  destroyed_made : ∀ wand ∈ heap.destroyed, wand < heap.created
  destroyed_iff : ∀ wand ∈ heap.finalizers, wand ∈ heap.destroyed ↔ wand ∈ heap.unread

theorem owned_empty : Owned .empty := by
  refine ⟨List.nodup_nil, ?_, ?_, ?_, ?_⟩
  all_goals
    intro wand member
    cases member

namespace Owned
variable {heap : Heap} (owned : Owned heap)
include owned

theorem fresh_pending : heap.created ∉ heap.finalizers := fun member => lt_irrefl _ (owned.pending_made _ member)

theorem fresh_unread : heap.created ∉ heap.unread := fun member => lt_irrefl _ (owned.unread_made _ member)

theorem fresh_destroyed : heap.created ∉ heap.destroyed := fun member => lt_irrefl _ (owned.destroyed_made _ member)

theorem pending_snoc : (heap.finalizers ++ [heap.created]).Nodup :=
  List.nodup_append.mpr ⟨owned.pending_once, List.nodup_singleton _, fun _ old _ new =>
    fun same => owned.fresh_pending (List.mem_singleton.mp new ▸ same ▸ old)⟩

end Owned

theorem made_snoc {wands : List Nat} {created : Nat} (made : ∀ wand ∈ wands, wand < created) :
    ∀ wand ∈ wands ++ [created], wand < created + 1 := by
  intro wand member
  rcases List.mem_append.mp member with old | new
  · exact Nat.lt_succ_of_lt (made wand old)
  · obtain rfl := List.mem_singleton.mp new
    exact Nat.lt_succ_self wand

theorem owned_step (heap : Heap) (event : Event) (owned : Owned heap) : Owned (step heap event) := by
  cases event with
  | new path status =>
    cases status with
    | true =>
      rw [step_read]
      refine ⟨owned.pending_snoc, made_snoc owned.pending_made, ?_, ?_, ?_⟩
      · exact fun wand member => Nat.lt_succ_of_lt (owned.unread_made wand member)
      · exact fun wand member => Nat.lt_succ_of_lt (owned.destroyed_made wand member)
      · intro wand member
        rcases List.mem_append.mp member with old | new
        · exact owned.destroyed_iff wand old
        · obtain rfl := List.mem_singleton.mp new
          exact iff_of_false owned.fresh_destroyed owned.fresh_unread
    | false =>
      refine ⟨owned.pending_snoc, made_snoc owned.pending_made, made_snoc owned.unread_made,
        made_snoc owned.destroyed_made, ?_⟩
      intro wand member
      simp only [step_unread, List.mem_append]
      rcases List.mem_append.mp member with old | new
      · exact or_congr (owned.destroyed_iff wand old) Iff.rfl
      · exact iff_of_true (Or.inr new) (Or.inr new)
  | collect wand =>
    rw [step_collect]
    split
    next pending =>
      refine ⟨owned.pending_once.erase wand, ?_, owned.unread_made, ?_, ?_⟩
      · exact fun other member => owned.pending_made other (List.mem_of_mem_erase member)
      · intro other member
        rcases List.mem_append.mp member with old | new
        · exact owned.destroyed_made other old
        · obtain rfl := List.mem_singleton.mp new
          exact owned.pending_made other pending
      · intro other member
        obtain ⟨different, old⟩ := owned.pending_once.mem_erase_iff.mp member
        have kept : other ∈ heap.destroyed ++ [wand] ↔ other ∈ heap.destroyed := by simp [different]
        exact kept.trans (owned.destroyed_iff other old)
    next => exact owned

theorem destroyedOnce_iff (heap : Heap) : DestroyedOnce heap ↔ heap.destroyed.Nodup :=
  List.nodup_iff_count_le_one.symm

theorem once_snoc {heap after : Heap} {wand : Nat} (once : DestroyedOnce heap)
    (adds : after.destroyed = heap.destroyed ++ [wand]) : wand ∉ heap.destroyed ↔ DestroyedOnce after := by
  have old := (destroyedOnce_iff heap).mp once
  rw [destroyedOnce_iff, adds, List.nodup_append_comm, List.singleton_append, List.nodup_cons]
  exact (and_iff_left old).symm

/-- One step is safe exactly if it does not collect an image that could not be read. -/
theorem readCollected_iff (heap : Heap) (event : Event) (owned : Owned heap) (once : DestroyedOnce heap) :
    ReadCollected heap event ↔ DestroyedOnce (step heap event) := by
  cases event with
  | new path status =>
    refine iff_of_true trivial ?_
    cases status with
    | true => exact once
    | false => exact (once_snoc once (congrArg Heap.destroyed (step_unread heap path))).mp owned.fresh_destroyed
  | collect wand =>
    rw [step_collect]
    split
    next pending =>
      have safe := @once_snoc heap { heap with
        finalizers := heap.finalizers.erase wand, destroyed := heap.destroyed ++ [wand] } wand once rfl
      rw [owned.destroyed_iff wand pending] at safe
      exact Iff.trans (imp_iff_right pending) safe
    next absent => exact iff_of_true (fun pending => absurd pending absent) once

/-- In every run: no wand is destroyed twice exactly if no image is collected whose picture could not be read. -/
theorem wands_destroyed_once_iff (events : List Event) :
    (∀ first, first <+: events → DestroyedOnce (Runs.run step .empty first)) ↔
      Runs.Along step ReadCollected .empty events :=
  Runs.safe_iff_along owned_step readCollected_iff owned_empty (fun _ => Nat.zero_le 1) events

/-- A corrupt file is read, the error is caught, and the collector comes. -/
theorem corrupt_image_destroyed_twice :
    ¬ DestroyedOnce (Runs.run step .empty [.new (bytes "/www/target/images/public/corrupt.jpg") false, .collect 0]) := by
  intro once
  exact absurd (once 0) (Nat.not_succ_le_self 1)

end ImageServer.WandOwnership
