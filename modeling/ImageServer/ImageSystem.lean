import ImageServer.ImageProcessor
import ImageServer.MessageRouter

/-! The newer thumbnail server, the broker and the compress worker as one system over one disk. Every
nginx process looks at the disk, writes its thumbnail and sends its messages in steps of its own, and in
between the worker replaces files by what the optimizer makes of them. -/

namespace ImageServer.ImageSystem
open MessageRouter

/-- What the server sees of a disk. -/
def seen (disk : Disk) : Files := fun path => (disk path).map .uploaded

/-- The bytes of a file, where a picture is stored as GraphicsMagick writes it. -/
def content (stored : Image → Bytes) : File → Bytes
  | .uploaded data => data
  | .thumbnail image => stored image

/-- What one call has changed since it looked at the disk, on the disk as it is now. -/
def written (stored : Image → Bytes) (looked after : Files) (disk : Disk) : Disk := fun path =>
  if after path = looked path then disk path else (after path).map (content stored)

/-- How far a process is with its call of `resolveImageURI`. -/
inductive Stage where
  | idle
  /-- It has looked for its files, and is about to write. -/
  | begun (looked after : Files) (texts : List Bytes)
  /-- It has written, and is about to send these texts. -/
  | saved (texts : List Bytes)

structure System (κ ι : Type) where
  process : κ → Stage
  net : Network ι

variable {κ ι : Type}

def System.disk (system : System κ ι) : Disk := system.net.worker.world.disk

def System.start (world : CompressImage.World) : System κ ι := ⟨fun _ => .idle, .start world⟩

def withDisk (net : Network ι) (disk : Disk) : Network ι :=
  { net with worker := { net.worker with world := { net.worker.world with disk } } }

inductive Action (κ ι : Type) where
  | request (process : κ) (host : ImageServer.Host) (oriRequestPath : Bytes)
  | save (process : κ)
  /-- The next text goes out over a sender that is opened for it. -/
  | post (process : κ) (sender : ι)
  | pass (action : MessageRouter.Action ι)

variable [DecidableEq κ] [DecidableEq ι] (senders : Senders ι) (self : ImageProcessor) (stored : Image → Bytes)

/-- A text as it comes to the front end. -/
def posted (net : Network ι) (sender : ι) (text : Bytes) : Network ι :=
  { net with
    toBroker := Function.update net.toBroker sender (net.toBroker sender ++ [[text]])
    sent := Function.update net.sent sender (net.sent sender ++ [text]) }

/-- What cannot be done leaves everything as it is. The worker takes no notice of a message about the
request, so it makes no difference that the call sends that one before it writes. -/
def step (system : System κ ι) : Action κ ι → System κ ι
  | .request process host oriRequestPath =>
    match system.process process with
    | .idle =>
      let looked := seen system.disk
      let after := (resolveImageURI host self oriRequestPath ⟨looked, [], []⟩).2
      { system with
        process := Function.update system.process process (.begun looked after.files (after.sent.map Prod.snd)) }
    | _ => system
  | .save process =>
    match system.process process with
    | .begun looked after texts =>
      { process := Function.update system.process process (.saved texts)
        net := withDisk system.net (written stored looked after system.disk) }
    | _ => system
  | .post process sender =>
    match system.process process with
    | .saved [] => { system with process := Function.update system.process process .idle }
    | .saved (text :: texts) =>
      { process := Function.update system.process process (.saved texts)
        net := posted system.net sender text }
    | _ => system
  | .pass action => { system with net := MessageRouter.step senders system.net action }

end ImageServer.ImageSystem
