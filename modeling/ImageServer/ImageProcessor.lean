import ImageServer.Exec
import ImageServer.Image
import ImageServer.LuaPattern
import ImageServer.PathSimbol
import ImageServer.Shell

/-! `nginx-thumbnail-server/ImageProcessor.lua`. -/

namespace ImageServer

inductive File where
  | uploaded (data : Bytes)
  | thumbnail (image : Image)
  deriving DecidableEq

abbrev Files := Bytes → Option File

structure Message where
  msgType : Nat
  oriRequestPath : Option Bytes
  sourceImageName : Option Bytes
  targetImageName : Option Bytes
  width : Option Number
  height : Option Number
  deriving DecidableEq

/-- A line that a shell reads as one `mkdir -p`, or does not run at all. -/
def MakesFolders (line : Bytes) : Prop :=
  (∃ folders, Shell.read line =
    .commands [Shell.literal (bytes "mkdir") :: Shell.literal (bytes "-p") :: folders]) ∨ Shell.Unfinished line

/-- Everything outside of the program during one call: GraphicsMagick, the shell with the
programs it runs, the JSON library and ZeroMQ. Making directories leaves the files alone. -/
structure Host where
  magick : Magick
  shell : Bytes → Files → Files
  mkdir_keeps : ∀ line files, MakesFolders line → shell line files = files
  encode : Message → Except LuaError Bytes
  /-- Whether `context:socket` answers with a socket for a message. -/
  socket : Bytes → Bool

/-- A host that removes files when it is told to and has no other program. -/
def Host.removing (width height : Int) : Host where
  magick := .obliging width height
  shell := Shell.interpret fun words files =>
    match words with
    | [program, option, path] =>
      if program = bytes "rm" ∧ option = bytes "-f" then Function.update files path none else files
    | _ => files
  mkdir_keeps line files makes := by
    rcases makes with ⟨folders, read⟩ | unfinished
    · simp only [Shell.interpret, read, List.foldl_cons, List.foldl_nil, List.map_cons, Shell.literal]
      split
      next program _ _ words =>
        have notRm : bytes "mkdir" ≠ bytes "rm" := by decide
        simp_all
      next => rfl
    · rw [Shell.Unfinished] at unfinished
      simp only [Shell.interpret, unfinished]
  encode _ := .ok []
  socket _ := true

structure World where
  files : Files
  /-- The command lines given to `os.execute`. -/
  executed : List Bytes
  /-- The messages sent, with the server each went to. -/
  sent : List (Bytes × Bytes)

abbrev Processing (α : Type) : Type := Exec LuaError World α

def execute (host : Host) (line : Bytes) : Processing Unit :=
  .modify fun world => { world with files := host.shell line world.files, executed := world.executed ++ [line] }

def mkdirs (host : Host) (dirname : Bytes) : Processing Unit := execute host (bytes "mkdir -p " ++ dirname)

def isFileExists (files : Files) (fileName : Bytes) : Bool := (files fileName).isSome

/-- `Image:save`: the whole file is written, or an error is raised and nothing is. -/
def Image.save (host : Host) (image : Image) (path : Bytes) : Processing Unit :=
  if host.magick.writeImage path then
    .modify fun world => { world with files := Function.update world.files path (some (.thumbnail image)) }
  else
    .raise (.thrown (Image.magickName ++ bytes ": error saving image to path \"" ++ path ++ bytes "\""))

/-- The identity is set on the sender before the sender is tested. -/
def sendMessage (host : Host) (message serverUrl : Bytes) : Processing Unit :=
  if host.socket message then .modify fun world => { world with sent := world.sent ++ [(serverUrl, message)] }
  else .raise .index

/-- `json.encode` and then `sendMessage`, as both callers have them. -/
def report (host : Host) (message : Message) (serverUrl : Bytes) : Processing Unit := do
  let jsonMsg ← Exec.lift (host.encode message)
  sendMessage host jsonMsg serverUrl

/-- The loop of `split`. The fuel bounds the number of pieces. -/
def splitLoop : Nat → Bytes → Bytes → Nat → Option (List Bytes)
  | 0, _, _, _ => none
  | fuel + 1, szFullString, szSeparator, nFindStartIndex =>
    match Lua.find szFullString szSeparator nFindStartIndex with
    | none => some [Lua.sub szFullString nFindStartIndex (Lua.len szFullString)]
    | some found =>
      (splitLoop fuel szFullString szSeparator (found.first + szSeparator.length)).map
        (Lua.sub szFullString nFindStartIndex (found.first - 1 : Int) :: ·)

def split (szFullString szSeparator : Bytes) : Option (List Bytes) :=
  splitLoop (szFullString.length + 2) szFullString szSeparator 1

structure WaterMarkKey where
  folder : Option Bytes
  waterMarkType : Option Int
  logoPath : Option Bytes
  deriving DecidableEq

structure ProcessConfig where
  thumbnailLocation : Bytes
  originalImagesRoot : Bytes
  thumbnailImagesRoot : Bytes
  permitedSizes : List Bytes
  sendMessageFlag : Bool
  serverUrl : Bytes
  sendMessageFlag4EveryReq : Bool
  waterMarkImagesKeys : Option (List WaterMarkKey)
  logoPath : Option Bytes

/-- A processor. Its three folders end in a slash, as `new` makes them. -/
structure ImageProcessor extends ProcessConfig where
  location_folder : IsFolder thumbnailLocation
  original_folder : IsFolder originalImagesRoot
  thumbnail_folder : IsFolder thumbnailImagesRoot

structure ThumbInfo where
  isThumbRequest : Bool
  targetFileExists : Bool
  sourceImageName : Bytes
  requestImageName : Bytes
  targetFolder : Bytes
  targetImageName : Bytes
  width : Option Number
  height : Option Number
  deriving DecidableEq

namespace ImageProcessor

def new (processConfig : ProcessConfig) : ImageProcessor where
  thumbnailLocation := appendPathSimbol2Tail processConfig.thumbnailLocation
  originalImagesRoot := appendPathSimbol2Tail processConfig.originalImagesRoot
  thumbnailImagesRoot := appendPathSimbol2Tail processConfig.thumbnailImagesRoot
  permitedSizes := processConfig.permitedSizes
  sendMessageFlag := processConfig.sendMessageFlag
  serverUrl := processConfig.serverUrl
  sendMessageFlag4EveryReq := processConfig.sendMessageFlag4EveryReq
  waterMarkImagesKeys := processConfig.waterMarkImagesKeys
  logoPath := processConfig.logoPath
  location_folder := appendPathSimbol2Tail_isFolder _
  original_folder := appendPathSimbol2Tail_isFolder _
  thumbnail_folder := appendPathSimbol2Tail_isFolder _

def thumbPattern : Bytes := bytes "/([^/]*)[.]([0-9*]+)[X|x]([0-9*]+)[.][png|jpg|gif]"

/-- A size text as a number: a lone star or zero asks for no such side. -/
def sizeNumber (sizeStr : Bytes) : Option Number :=
  if sizeStr ≠ bytes "*" ∧ sizeStr ≠ bytes "0" then Lua.tonumber sizeStr else none

/-- The positions that `string.find` reports are positive, so the test for a negative one
in the source never holds. -/
def extractThumbInfo (self : ImageProcessor) (files : Files) (oriRequestPath : Bytes) : Option ThumbInfo :=
  match Lua.find oriRequestPath thumbPattern 1 with
  | some ⟨pos1, _, [oriImgName, sizeStr1, sizeStr2]⟩ =>
    let relativePath := appendPathSimbol2Tail (removePathSimbolAtHead (Lua.sub oriRequestPath 0 pos1))
    let len := Lua.len oriRequestPath
    -- the last four bytes, whatever the pattern matched
    let suffix := Lua.sub oriRequestPath (len - 3) len
    let requestImageName := relativePath ++ oriImgName ++ bytes "_" ++ sizeStr1 ++ bytes "*" ++ sizeStr2 ++ suffix
    let targetImageName := self.thumbnailImagesRoot ++ requestImageName
    some {
      isThumbRequest := true
      targetFileExists := isFileExists files targetImageName
      sourceImageName := self.originalImagesRoot ++ relativePath ++ oriImgName ++ suffix
      requestImageName
      targetFolder := self.thumbnailImagesRoot ++ relativePath
      targetImageName
      width := sizeNumber sizeStr1
      height := sizeNumber sizeStr2 }
  | _ => none

end ImageProcessor

/-- The text looked up among the permitted sizes. -/
def sizeStr (width height : Option Number) : Bytes :=
  (match width with | some width => Lua.tostring width | none => bytes "0") ++ bytes "x" ++
    (match height with | some height => Lua.tostring height | none => bytes "0")

/-- The watermark of one type, in the order of the source's three tests. A missing number
raises where it is used. -/
def drawWaterMark (magick : Magick) (image : Image) (logo : Option Bytes) (waterMarkType : Option Int)
    (rsize : Placement) (width height : Option Number) : Except LuaError Image := do
  if waterMarkType = some 5 then
    image.addWaterMark magick logo 0 0
  else if waterMarkType = some 1 then
    match rsize.rwidth, rsize.rheight with
    | some rwidth, some rheight => image.addWaterMark magick logo (rsize.x + rwidth - 120) (rsize.y + rheight - 57)
    | _, _ => .error .arithmetic
  else if waterMarkType = some 6 then
    match width, height with
    | some width, some height => image.addWaterMark magick logo (width / 2 - 50) (height / 2 - 19)
    | _, _ => .error .arithmetic
  else
    return image

/-- What `processImage` does in memory between the directory and the save. -/
def renderImage (magick : Magick) (image : Image) (width height : Option Number) (toGenWaterMark : Bool)
    (waterMarkConfig : Option WaterMarkKey) (logoPath : Option Bytes) : Except LuaError Image :=
  if toGenWaterMark then
    match waterMarkConfig with
    | none => .error .index
    | some config => do
      let (rsize, image) ← image.thumbnail4LargeImgs magick width height
      drawWaterMark magick image (config.logoPath.or logoPath) config.waterMarkType rsize width height
  else do
    let (_, image) ← image.thumbnail4LargeImgs magick width height
    return image

def thumbnailMessage (self : ImageProcessor) (info : ThumbInfo) : Message where
  msgType := 2
  oriRequestPath := none
  sourceImageName := some (removePathSimbolAtHead
    (Lua.sub info.sourceImageName (Lua.len self.originalImagesRoot) (Lua.len info.sourceImageName)))
  targetImageName := some (removePathSimbolAtHead
    (Lua.sub info.targetImageName (Lua.len self.thumbnailImagesRoot) (Lua.len info.targetImageName)))
  width := info.width
  height := info.height

/-- The fields of the processor and of the request are the arguments of the source. -/
def processImage (host : Host) (self : ImageProcessor) (info : ThumbInfo) (toGenWaterMark : Bool)
    (waterMarkConfig : Option WaterMarkKey) : Processing Bool := do
  let world ← Exec.get
  if !isFileExists world.files info.sourceImageName then
    return false
  let image ← Exec.lift (Image.new host.magick (some info.sourceImageName))
  let successFlag ←
    if sizeStr info.width info.height ∈ self.permitedSizes then do
      mkdirs host info.targetFolder
      let image ← Exec.lift
        (renderImage host.magick image info.width info.height toGenWaterMark waterMarkConfig self.logoPath)
      image.save host info.targetImageName
      pure true
    else
      pure false
  if self.sendMessageFlag && successFlag then
    report host (thumbnailMessage self info) self.serverUrl
  return successFlag

/-- Whether a watermark is drawn, and which. -/
def selectWaterMark (self : ImageProcessor) (info : ThumbInfo) : Bool × Option WaterMarkKey :=
  let large (side : Option Number) := side.any (Number.le 400 ·)
  if large info.width || large info.height then
    let imgDic := (split info.requestImageName (bytes "/")).bind (·[1]?)
    match (self.waterMarkImagesKeys.getD []).find? (fun v => imgDic = v.folder) with
    | some v => (true, some v)
    | none => (false, none)
  else
    (false, none)

def requestMessage (oriRequestPath : Bytes) : Message where
  msgType := 1
  oriRequestPath := some oriRequestPath
  sourceImageName := none
  targetImageName := none
  width := none
  height := none

/-- The last part of `resolveImageURI`. The flag that `processImage` returns is dropped; only
a raised error makes the answer nil. -/
def generateAndAnswer (host : Host) (self : ImageProcessor) (thumbInfo : ThumbInfo) : Processing (Option Bytes) := do
  if !thumbInfo.targetFileExists then
    let (toGenWaterMark, waterMarkConfig) := selectWaterMark self thumbInfo
    match ← Exec.pcall (processImage host self thumbInfo toGenWaterMark waterMarkConfig) with
    | .error _ => return none
    | .ok _ => pure ()
  return some (self.thumbnailLocation ++ thumbInfo.requestImageName)

def resolveImageURI (host : Host) (self : ImageProcessor) (oriRequestPath : Bytes) : Processing (Option Bytes) := do
  let world ← Exec.get
  match self.extractThumbInfo world.files oriRequestPath with
  | none => return none
  | some thumbInfo =>
    if !thumbInfo.isThumbRequest then
      return none
    if self.sendMessageFlag4EveryReq then
      report host (requestMessage oriRequestPath) self.serverUrl
    generateAndAnswer host self thumbInfo

end ImageServer
