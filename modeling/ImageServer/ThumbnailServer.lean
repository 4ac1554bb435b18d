import ImageServer.ImageProcessor

/-! `thumbnail-server`: the older of the two servers, with its own names for sizes and its own
order of steps. The directory is made before anything is known about the source. -/

namespace ImageServer.ThumbnailServer

/-- A missing socket is only reported. -/
def sendMessage (host : Host) (message serverUrl : Bytes) : Processing Unit :=
  .modify fun world =>
    if host.socket message then { world with sent := world.sent ++ [(serverUrl, message)] } else world

theorem sendMessage_keeps (host : Host) (message serverUrl : Bytes) (world : World) :
    (sendMessage host message serverUrl world).2.files = world.files ∧
      (sendMessage host message serverUrl world).2.executed = world.executed := by
  simp only [sendMessage, Exec.modify_run]
  split <;> exact ⟨rfl, rfl⟩

structure ProcessConfig where
  thumbnailLocation : Bytes
  originalImagesRoot : Bytes
  thumbnailImagesRoot : Bytes
  permitedSizes : List Bytes
  sendMessageFlag : Bool
  serverUrl : Bytes
  widthLimit : Option Number
  heightLimit : Option Number
  sendMessageFlag4EveryReq : Bool

/-- A processor. Its three folders end in a slash, as `new` makes them. -/
structure ImageProcessor extends ProcessConfig where
  location_folder : IsFolder thumbnailLocation
  original_folder : IsFolder originalImagesRoot
  thumbnail_folder : IsFolder thumbnailImagesRoot

namespace ImageProcessor

def new (processConfig : ProcessConfig) : ImageProcessor where
  thumbnailLocation := appendPathSimbol2Tail processConfig.thumbnailLocation
  originalImagesRoot := appendPathSimbol2Tail processConfig.originalImagesRoot
  thumbnailImagesRoot := appendPathSimbol2Tail processConfig.thumbnailImagesRoot
  permitedSizes := processConfig.permitedSizes
  sendMessageFlag := processConfig.sendMessageFlag
  serverUrl := processConfig.serverUrl
  widthLimit := processConfig.widthLimit
  heightLimit := processConfig.heightLimit
  sendMessageFlag4EveryReq := processConfig.sendMessageFlag4EveryReq
  location_folder := appendPathSimbol2Tail_isFolder _
  original_folder := appendPathSimbol2Tail_isFolder _
  thumbnail_folder := appendPathSimbol2Tail_isFolder _

def thumbPattern : Bytes := bytes "/([^/]*)([0-9]?)[_]([0-9*]+)[_]([0-9*]+)[.]jpg"

def extractThumbInfo (self : ImageProcessor) (files : Files) (oriRequestPath : Bytes) : Option ThumbInfo :=
  match Lua.find oriRequestPath thumbPattern 1 with
  | some ⟨pos1, _, [imgName1, imgIndex, sizeStr1, sizeStr2]⟩ =>
    let relativePath := appendPathSimbol2Tail (removePathSimbolAtHead (Lua.sub oriRequestPath 0 pos1))
    let requestImageName := relativePath ++ imgName1 ++ imgIndex ++ bytes "_" ++ sizeStr1 ++ bytes "_" ++ sizeStr2 ++
      bytes ".jpg"
    let oriImgName := if imgName1 = bytes "g" then bytes "ori" else imgName1
    let targetImageName := self.thumbnailImagesRoot ++ requestImageName
    some {
      isThumbRequest := true
      targetFileExists := isFileExists files targetImageName
      sourceImageName := self.originalImagesRoot ++ relativePath ++ oriImgName ++ imgIndex ++ bytes ".jpg"
      requestImageName
      targetFolder := self.thumbnailImagesRoot ++ relativePath
      targetImageName
      width := ImageServer.ImageProcessor.sizeNumber sizeStr1
      height := ImageServer.ImageProcessor.sizeNumber sizeStr2 }
  | _ => none

end ImageProcessor

/-- `a < b` in Lua, where a missing limit cannot be compared with. -/
def below (side : Number) (limit : Option Number) : Except LuaError Bool :=
  match limit with
  | some limit => .ok (Number.lt side limit)
  | none => .error .comparison

/-- Pictures that are smaller than the limits are left as they are. -/
def thumbnail4LargeImgs (magick : Magick) (image : Image) (width height widthLimit heightLimit : Option Number) :
    Except LuaError Image :=
  let (cwidth, cheight) := image.size
  match width, height with
  | some width, some height => do
    if ← below cwidth widthLimit then
      if ← below cheight heightLimit then
        return image
    let (mwidth, mheight) :=
      if Number.lt (height / cheight) (width / cwidth) then (cwidth * (height / cheight), height)
      else (width, cheight * (width / cwidth))
    let image ← image.setSize magick (some mwidth) (some mheight)
    let (cwidth, cheight) := image.size
    if !Number.eq cwidth width || !Number.eq cheight height then
      return image.extent magick width height ((width - cwidth) / 2) ((height - cheight) / 2)
    return image
  | some width, none => do
    if ← below cwidth widthLimit then
      return image
    image.setSize magick (some width) (some (cheight * width / cwidth))
  | none, some height => do
    if ← below cheight heightLimit then
      return image
    image.setSize magick (some (cwidth * height / cheight)) (some height)
  | none, none => do
    if ← below cheight heightLimit then
      return image
    .error .arithmetic

def thumbnailMessage (self : ImageProcessor) (info : ThumbInfo) : Message where
  msgType := 2
  oriRequestPath := none
  sourceImageName := some (removePathSimbolAtHead
    (Lua.sub info.sourceImageName (Lua.len self.originalImagesRoot) (Lua.len info.sourceImageName)))
  targetImageName := some (removePathSimbolAtHead
    (Lua.sub info.targetImageName (Lua.len self.thumbnailImagesRoot) (Lua.len info.targetImageName)))
  width := info.width
  height := info.height

def resizeImage (host : Host) (self : ImageProcessor) (info : ThumbInfo) : Processing Bool := do
  let world ← Exec.get
  if !isFileExists world.files info.sourceImageName then
    return false
  let image ← Exec.lift (Image.new host.magick (some info.sourceImageName))
  let successFlag ←
    if sizeStr info.width info.height ∈ self.permitedSizes then do
      let image ← Exec.lift
        (thumbnail4LargeImgs host.magick image info.width info.height self.widthLimit self.heightLimit)
      image.save host info.targetImageName
      pure true
    else
      pure false
  if self.sendMessageFlag && successFlag then
    let jsonMsg ← Exec.lift (host.encode (thumbnailMessage self info))
    sendMessage host jsonMsg self.serverUrl
  return successFlag

/-- The last part of `resolveImageURI`: the directory comes first, outside of the protected
call. -/
def generateAndAnswer (host : Host) (self : ImageProcessor) (thumbInfo : ThumbInfo) : Processing (Option Bytes) := do
  if !thumbInfo.targetFileExists then
    mkdirs host thumbInfo.targetFolder
    match ← Exec.pcall (resizeImage host self thumbInfo) with
    | .error _ => return none
    | .ok _ => pure ()
  return some (self.thumbnailLocation ++ thumbInfo.requestImageName)

/-- The message about a request is built and then a variable that does not exist is encoded
in its place. -/
def resolveImageURI (host : Host) (self : ImageProcessor) (oriRequestPath : Bytes) : Processing (Option Bytes) := do
  let world ← Exec.get
  match self.extractThumbInfo world.files oriRequestPath with
  | none => return none
  | some thumbInfo =>
    if !thumbInfo.isThumbRequest then
      return none
    if self.sendMessageFlag4EveryReq then
      sendMessage host (bytes "null") self.serverUrl
    generateAndAnswer host self thumbInfo

def permitedSizes : List Bytes :=
  ["600x600", "400x400", "220x220", "200x200", "180x180", "160x160", "150x150", "100x100", "80x80", "60x60", "50x50",
    "480x*", "480x0"].map bytes

def processorConfig : ProcessConfig where
  thumbnailLocation := bytes "/thumbnail/"
  originalImagesRoot := bytes "/www/images/public/"
  thumbnailImagesRoot := bytes "/www/images/public/thumbnail/"
  permitedSizes := permitedSizes
  sendMessageFlag := true
  serverUrl := bytes "tcp://localhost:5555"
  widthLimit := some 480
  heightLimit := some 1000
  sendMessageFlag4EveryReq := true

def processor : ImageProcessor := .new processorConfig

end ImageServer.ThumbnailServer
