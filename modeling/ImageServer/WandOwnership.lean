import ImageServer.Exec
import ImageServer.Image

/-! Who destroys the wands of `Image.lua`. A wand has a finalizer as soon as there is an image
for it, and `load` destroys it too when its picture cannot be read. -/

namespace ImageServer.WandOwnership

/-- Wands are numbered in the order in which `NewMagickWand` returns them. -/
structure Heap where
  created : Nat
  /-- The wands with a finalizer that is still to run. -/
  finalizers : List Nat
  /-- The wands that `MagickReadImage` has answered with zero for. -/
  unread : List Nat
  /-- The arguments of `DestroyMagickWand`, call by call. -/
  destroyed : List Nat

def Heap.empty : Heap := ⟨0, [], [], []⟩

/-- The two fields of an image that a constructor sets. -/
structure Object where
  wand : Nat
  path : Bytes

abbrev Constructing (α : Type) : Type := Exec LuaError Heap α

def newMagickWand : Constructing Nat := do
  let heap ← Exec.get
  Exec.modify fun heap => { heap with created := heap.created + 1 }
  return heap.created

def destroyMagickWand (wand : Nat) : Constructing Unit :=
  .modify fun heap => { heap with destroyed := heap.destroyed ++ [wand] }

/-- Whether the picture can be read is up to the file. -/
def magickReadImage (wand : Nat) (status : Bool) : Constructing Bool := do
  if !status then
    Exec.modify fun heap => { heap with unread := heap.unread ++ [wand] }
  return status

/-- `ffi.gc`. -/
def gc (wand : Nat) : Constructing Unit :=
  .modify fun heap => { heap with finalizers := heap.finalizers ++ [wand] }

def load (image : Object) (path : Bytes) (status : Bool) : Constructing Object := do
  if !(← magickReadImage image.wand status) then
    destroyMagickWand image.wand
    Exec.raise (.thrown (Image.magickName ++ bytes ": error loading image at path \"" ++ path ++ bytes "\""))
  return { image with path }

def new (path : Bytes) (status : Bool) : Constructing Object := do
  let wand ← newMagickWand
  gc wand
  load ⟨wand, bytes "<>"⟩ path status

/-- The collector takes an image, and its finalizer runs this once. -/
def collect (wand : Nat) : Constructing Unit := do
  let heap ← Exec.get
  if wand ∈ heap.finalizers then
    Exec.modify fun heap => { heap with finalizers := heap.finalizers.erase wand }
    destroyMagickWand wand

inductive Event where
  | new (path : Bytes) (status : Bool)
  | collect (wand : Nat)

/-- An error of `new` is caught by the protected call further out. -/
def step (heap : Heap) : Event → Heap
  | .new path status => (new path status heap).2
  | .collect wand => (collect wand heap).2

def DestroyedOnce (heap : Heap) : Prop := ∀ wand, heap.destroyed.count wand ≤ 1

/-- What is collected is an image that could be read. -/
def ReadCollected (heap : Heap) : Event → Prop
  | .new _ _ => True
  | .collect wand => wand ∈ heap.finalizers → wand ∉ heap.unread

end ImageServer.WandOwnership
