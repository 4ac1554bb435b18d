import ImageServer.Exec
import ImageServer.Image
import ImageServer.PathSimbol
import ImageServer.Shell

/-! `compressimage.lua`: the worker that compresses images in place. The optimizer, `mv`, the
shell, the JSON library and ZeroMQ are parameters. -/

namespace ImageServer.CompressImage

def optimizer : Bytes := bytes "/www/target/compressimage/program/page-speed-1.9/out/Release/optimize_image_bin"

def compressCommand : Bytes :=
  bytes "'/www/target/compressimage/program/page-speed-1.9/out/Release/optimize_image_bin' "

def originalImageRoot : Bytes := bytes "/www//images/public/"

def thumbnailImaegRoot : Bytes := bytes "/www/images/public/thumbnail"

def resendServerUrl : Bytes := bytes "tcp://172.16.3.28:5561"

/-- What a run of the optimizer leaves at its target. -/
inductive Output where
  | nothing
  | truncated (content : Bytes)
  | complete
  deriving DecidableEq

/-- How the optimizer ends. Its status says nothing about what it has written. -/
structure Outcome where
  success : Bool
  output : Output
  deriving DecidableEq

/-- One run of the optimizer, where a complete output is a function of the picture. -/
def optimize (optimized : Bytes → Bytes) (outcome : Outcome) (source target : Bytes) (disk : Disk) : Disk :=
  match outcome.output, disk source with
  | .truncated content, _ => Function.update disk target (some content)
  | .complete, some original => Function.update disk target (some (optimized original))
  | .nothing, _ | .complete, none => disk

/-- `mv -f` is an atomic replace. Operands that begin with a dash are options, and then there
is nothing to move. -/
def moveFile (source target : Bytes) (disk : Disk) : Disk :=
  if source.head? = some 45 ∧ target.head? = some 45 then disk
  else match disk source with
    | some content => Function.update (Function.update disk source none) target (some content)
    | none => disk

inductive Value where
  | null
  | boolean (value : Bool)
  | number (value : Number)
  | string (text : Bytes)
  | table (fields : List (Bytes × Value))

/-- Everything outside of the program while one message is handled. -/
structure Host where
  optimized : Bytes → Bytes
  outcome : Outcome
  shell : Bytes → Disk → Disk
  runs_optimizer : ∀ line disk source target,
    Shell.read line = .commands [[Shell.literal optimizer, Shell.literal source, Shell.literal target]] →
    shell line disk = optimize optimized outcome source target disk
  runs_mv : ∀ line disk source target,
    Shell.read line = .commands [[Shell.literal (bytes "mv"), Shell.literal (bytes "-f"), Shell.literal source,
      Shell.literal target]] →
    shell line disk = moveFile source target disk
  runs_nothing : ∀ line disk, Shell.Unfinished line → shell line disk = disk
  decode : Bytes → Except LuaError Value
  socket : Bytes → Bool

/-- The shell knows the two programs and no other. -/
def Host.running (optimized : Bytes → Bytes) (outcome : Outcome) (decode : Bytes → Except LuaError Value) : Host where
  optimized := optimized
  outcome := outcome
  shell := Shell.interpret fun words disk =>
    match words with
    | [program, source, target] => if program = optimizer then optimize optimized outcome source target disk else disk
    | [program, option, source, target] =>
      if program = bytes "mv" ∧ option = bytes "-f" then moveFile source target disk else disk
    | _ => disk
  runs_optimizer line disk source target read := by
    simp [Shell.interpret, read, Shell.literal]
  runs_mv line disk source target read := by
    simp [Shell.interpret, read, Shell.literal]
  runs_nothing line disk unfinished := by
    rw [Shell.Unfinished] at unfinished
    simp only [Shell.interpret, unfinished]
  decode := decode
  socket _ := true

structure World where
  disk : Disk
  /-- The paths that `compressImage` was called with. -/
  compressed : List Bytes
  /-- The messages sent, with the server each went to. -/
  sent : List (Bytes × Bytes)

abbrev Handling (α : Type) : Type := Exec LuaError World α

/-- `io.open` and `os.execute` take C strings. -/
def isFileExists (disk : Disk) (fileName : Bytes) : Bool := (disk (Shell.cString fileName)).isSome

def execute (host : Host) (line : Bytes) : Handling Unit :=
  .modify fun world => { world with disk := host.shell line world.disk }

def tempFile (imageFullPath : Bytes) : Bytes := imageFullPath ++ bytes ".comps.jpg"

def compressCmd (imageFullPath : Bytes) : Bytes :=
  compressCommand ++ bytes " '" ++ imageFullPath ++ bytes "' '" ++ tempFile imageFullPath ++ bytes "'"

def replaceCmd (imageFullPath : Bytes) : Bytes :=
  bytes "mv -f '" ++ tempFile imageFullPath ++ bytes "' '" ++ imageFullPath ++ bytes "'"

def compressImage (host : Host) (imageFullPath : Bytes) : Handling Unit := do
  .modify fun world => { world with compressed := world.compressed ++ [imageFullPath] }
  let world ← Exec.get
  if isFileExists world.disk imageFullPath then
    execute host (compressCmd imageFullPath)
    let world ← Exec.get
    -- neither the status nor the age of the temporary file is looked at
    if isFileExists world.disk (tempFile imageFullPath) then
      execute host (replaceCmd imageFullPath)

/-- A missing socket is only reported. -/
def sendMessage (host : Host) (message serverUrl : Bytes) : Handling Unit :=
  .modify fun world =>
    if host.socket message then { world with sent := world.sent ++ [(serverUrl, message)] } else world

namespace Value

def truthy : Option Value → Bool
  | none | some (.boolean false) => false
  | _ => true

/-- A field of a value. A string has the methods of strings, and none of the names looked up
is one of them. -/
def index (value : Value) (name : Bytes) : Except LuaError (Option Value) :=
  match value with
  | .table fields => .ok (fields.lookup name)
  | .string _ => .ok none
  | _ => .error .index

def isNumber (value : Option Value) (expected : Number) : Bool :=
  match value with
  | some (.number value) => Number.eq value expected
  | _ => false

/-- An operand of `..`. -/
def concatenated : Option Value → Except LuaError Bytes
  | some (.string text) => .ok text
  | some (.number value) => .ok (Lua.tostring value)
  | _ => .error .concatenation

/-- `removePathSimbolAtHead` on a value. The text of a number does not begin with a slash. -/
def removePathSimbolAtHead : Option Value → Except LuaError (Option Value)
  | none | some (.boolean false) => .ok none
  | some (.string text) => .ok (some (.string (ImageServer.removePathSimbolAtHead text)))
  | some (.number value) => .ok (some (.number value))
  | _ => .error .argument

end Value

def onMessageArrive (host : Host) (jsonMsg : Bytes) : Handling Bool := do
  let msg ← Exec.lift (host.decode jsonMsg)
  if !Value.truthy (some msg) then
    return false
  let sourceImageName ← Exec.lift (msg.index (bytes "sourceImageName"))
  if !Value.truthy sourceImageName then
    return false
  let msgType ← Exec.lift (msg.index (bytes "msgType"))
  if Value.isNumber msgType 2 then
    let targetImageName ← Exec.lift (msg.index (bytes "targetImageName"))
    let name ← Exec.lift (Value.removePathSimbolAtHead targetImageName >>= Value.concatenated)
    compressImage host (appendPathSimbol2Tail thumbnailImaegRoot ++ name)
    sendMessage host jsonMsg resendServerUrl
    return true
  else if Value.isNumber msgType 3 then
    let imagePath ← Exec.lift (msg.index (bytes "imagePath"))
    let name ← Exec.lift (Value.removePathSimbolAtHead imagePath >>= Value.concatenated)
    -- the full path is built and then not used
    let _imageFullPath := appendPathSimbol2Tail originalImageRoot ++ name
    compressImage host (← Exec.lift (Value.concatenated imagePath))
    return true
  else
    let _unknown ← Exec.lift (Value.concatenated msgType)
    return false

end ImageServer.CompressImage
