import ImageServer.Scaling
import ImageServer.ThumbnailServer

/-! `resizeImage` of the older server over any arithmetic, with the arguments that
`resolveImageURI` gives it. -/

namespace ImageServer.ThumbnailServer
open Arithmetic

class Written (α : Type) where
  /-- The number as the texts and the messages have it. -/
  number : α → Number

instance : Written Number := ⟨fun value => value⟩

instance : Written ℚ := ⟨.fin⟩

structure ResizeCall (α : Type) where
  sourceImageName : Bytes
  targetImageName : Bytes
  width : Option α
  height : Option α
  permitedSizes : List Bytes
  sendMessageFlag : Bool
  serverUrl : Bytes
  widthLimit : Option α
  heightLimit : Option α
  originalImagesRoot : Bytes
  thumbnailImagesRoot : Bytes

def ImageProcessor.call (self : ImageProcessor) (info : ThumbInfo) : ResizeCall Number where
  sourceImageName := info.sourceImageName
  targetImageName := info.targetImageName
  width := info.width
  height := info.height
  permitedSizes := self.permitedSizes
  sendMessageFlag := self.sendMessageFlag
  serverUrl := self.serverUrl
  widthLimit := self.widthLimit
  heightLimit := self.heightLimit
  originalImagesRoot := self.originalImagesRoot
  thumbnailImagesRoot := self.thumbnailImagesRoot

namespace ResizeCall
variable {α : Type} [Arithmetic α]

def below (side : α) (limit : Option α) : Except LuaError Bool :=
  match limit with
  | some limit => .ok (lt side limit)
  | none => .error .comparison

/-- The guard of requests with both sides. -/
def small (call : ResizeCall α) (cwidth cheight : α) : Except LuaError Bool := do
  if ← below cwidth call.widthLimit then below cheight call.heightLimit else return false

/-- False for a picture that is left as it is, and otherwise nothing. -/
def thumbnail4LargeImgs (magick : Magick) (call : ResizeCall α) : Exec LuaError Wand (Option Bool) := do
  let (cwidth, cheight) : α × α ← Wand.size
  match call.width, call.height with
  | some width, some height =>
    if ← Exec.lift (call.small cwidth cheight) then
      return some false
    let (mwidth, mheight) :=
      if lt (height / cheight) (width / cwidth) then (cwidth * (height / cheight), height)
      else (width, cheight * (width / cwidth))
    Wand.setSize magick (some mwidth) (some mheight)
    let (cwidth, cheight) : α × α ← Wand.size
    if !eq cwidth width || !eq cheight height then
      Wand.extent magick width height ((width - cwidth) / ofInt 2) ((height - cheight) / ofInt 2)
    return none
  | some width, none =>
    if ← Exec.lift (below cwidth call.widthLimit) then
      return some false
    Wand.setSize magick (some width) (some (cheight * width / cwidth))
    return none
  | none, some height =>
    if ← Exec.lift (below cheight call.heightLimit) then
      return some false
    Wand.setSize magick (some (cwidth * height / cheight)) (some height)
    return none
  | none, none =>
    if ← Exec.lift (below cheight call.heightLimit) then
      return some false
    Exec.raise .arithmetic

variable [Written α]
open Written

def sizeStr (call : ResizeCall α) : Bytes := ImageServer.sizeStr (call.width.map number) (call.height.map number)

def thumbnailMessage (call : ResizeCall α) : Message where
  msgType := 2
  oriRequestPath := none
  sourceImageName := some (removePathSimbolAtHead
    (Lua.sub call.sourceImageName (Lua.len call.originalImagesRoot) (Lua.len call.sourceImageName)))
  targetImageName := some (removePathSimbolAtHead
    (Lua.sub call.targetImageName (Lua.len call.thumbnailImagesRoot) (Lua.len call.targetImageName)))
  width := call.width.map number
  height := call.height.map number

/-- What `thumbnail4LargeImgs` returns is not looked at: the picture is saved either way. -/
def resizeImage (host : Host) (call : ResizeCall α) : Processing Bool := do
  let world ← Exec.get
  if !isFileExists world.files call.sourceImageName then
    return false
  let image ← Exec.lift (Image.new host.magick (some call.sourceImageName))
  let successFlag ←
    if call.sizeStr ∈ call.permitedSizes then do
      let (result, wand) := call.thumbnail4LargeImgs host.magick ⟨image, []⟩
      let _ ← Exec.lift result
      wand.image.save host call.targetImageName
      pure true
    else
      pure false
  if call.sendMessageFlag && successFlag then
    let jsonMsg ← Exec.lift (host.encode call.thumbnailMessage)
    sendMessage host jsonMsg call.serverUrl
  return successFlag

end ResizeCall
end ImageServer.ThumbnailServer
