import ImageServer.ImageProcessor
import ImageServer.InPlace
import Mathlib.Data.UInt

/-! The worker processes of nginx over one disk. The existence check, the directory and the
steps of a save are separate, and any worker may act between any two of them. -/

namespace ImageServer.Workers
open InPlace

def filesOf (disk : Disk) : Files := fun path => (disk path).map .uploaded

/-- What GraphicsMagick writes for a picture, and the shell. -/
structure Machine where
  encode : Image → Bytes
  shell : Bytes → Disk → Disk
  mkdir_keeps : ∀ line disk, MakesFolders line → shell line disk = disk

/-- How far a worker is in `resolveImageURI`. -/
inductive Phase where
  | idle
  /-- The target was not there. -/
  | checked (info : ThumbInfo)
  /-- The source is read and the size is permitted. -/
  | loaded (info : ThumbInfo) (magick : Magick) (image : Image)
  /-- The directory is made. -/
  | prepared (info : ThumbInfo) (magick : Magick) (image : Image)
  /-- `MagickWriteImage` has created the target and written so many bytes. -/
  | saving (info : ThumbInfo) (content : Bytes) (written : Nat)

structure State (W : Type) where
  disk : Disk
  phase : W → Phase

inductive Event (W : Type) where
  | request (worker : W) (path : Bytes)
  | load (worker : W) (magick : Magick)
  | makeFolder (worker : W)
  /-- `MagickWriteImage` opens the target, or cannot. -/
  | create (worker : W) (opened : Bool)
  | write (worker : W) (count : Nat)
  | fail (worker : W)
  | finish (worker : W)

variable {W : Type} [DecidableEq W]

def State.enter (state : State W) (worker : W) (phase : Phase) : State W :=
  { state with phase := Function.update state.phase worker phase }

/-- What the worker draws before it saves. -/
def draw (self : ImageProcessor) (magick : Magick) (image : Image) (info : ThumbInfo) : Except LuaError Image :=
  let (toGenWaterMark, waterMarkConfig) := selectWaterMark self info
  renderImage magick image info.width info.height toGenWaterMark waterMarkConfig self.logoPath

/-- An event that the worker is not ready for changes nothing. A worker that answers, or
whose call ends in an error, is idle again; what it wrote stays. -/
def step (machine : Machine) (self : ImageProcessor) (state : State W) : Event W → State W
  | .request worker path =>
    match state.phase worker, self.extractThumbInfo (filesOf state.disk) path with
    | .idle, some info => if info.targetFileExists then state else state.enter worker (.checked info)
    | _, _ => state
  | .load worker magick =>
    match state.phase worker with
    | .checked info =>
      if isFileExists (filesOf state.disk) info.sourceImageName then
        match Image.new magick (some info.sourceImageName) with
        | .ok image =>
          if sizeStr info.width info.height ∈ self.permitedSizes then state.enter worker (.loaded info magick image)
          else state.enter worker .idle
        | .error _ => state.enter worker .idle
      else state.enter worker .idle
    | _ => state
  | .makeFolder worker =>
    match state.phase worker with
    | .loaded info magick image =>
      { state.enter worker (.prepared info magick image) with
        disk := machine.shell (bytes "mkdir -p " ++ info.targetFolder) state.disk }
    | _ => state
  | .create worker opened =>
    match state.phase worker with
    | .prepared info magick image =>
      match draw self magick image info with
      | .ok picture =>
        if opened then
          { state.enter worker (.saving info (machine.encode picture) 0) with
            disk := Function.update state.disk info.targetImageName (some []) }
        else state.enter worker .idle
      | .error _ => state.enter worker .idle
    | _ => state
  | .write worker count =>
    match state.phase worker with
    | .saving info content written =>
      let chunk := slice content written count
      { state.enter worker (.saving info content (written + chunk.length)) with
        disk := Function.update state.disk info.targetImageName
          ((state.disk info.targetImageName).map (writeAt · written chunk)) }
    | _ => state
  | .fail worker =>
    match state.phase worker with
    | .saving _ _ _ => state.enter worker .idle
    | _ => state
  | .finish worker =>
    match state.phase worker with
    | .saving _ content written => if written = content.length then state.enter worker .idle else state
    | _ => state

end ImageServer.Workers
