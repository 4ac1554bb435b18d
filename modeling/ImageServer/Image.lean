import ImageServer.Number

/-! `Image.lua`, the wrapper over GraphicsMagick. The library itself is a parameter: what
each call answers, and the size of what it makes. -/

namespace ImageServer

inductive LuaError where
  /-- `error(message)`. -/
  | thrown (message : Bytes)
  /-- Arithmetic on nil. -/
  | arithmetic
  /-- Indexing nil or a value without fields. -/
  | index
  /-- `..` on a value that is neither a string nor a number. -/
  | concatenation
  /-- Comparing nil with a number. -/
  | comparison
  /-- A library function refused its argument. -/
  | argument
  deriving DecidableEq

structure Magick where
  /-- The size of the picture read from a path, if it can be read. -/
  readImage : Bytes → Option (Int × Int)
  /-- The size that resizing gives a wand of the first size. -/
  resizeImage : Int × Int → Int → Int → Option (Int × Int)
  extentImage : Int → Int → Int → Int → Bool
  compositeImage : Int → Int → Bool
  writeImage : Bytes → Bool

/-- Every call is a success. -/
structure Magick.Succeeds (magick : Magick) : Prop where
  reads : ∀ path, (magick.readImage path).isSome
  resizes : ∀ size width height, (magick.resizeImage size width height).isSome
  canvases : ∀ width height left top, magick.extentImage width height left top = true
  composites : ∀ x y, magick.compositeImage x y = true
  writes : ∀ path, magick.writeImage path = true

/-- A library that makes every picture as large as it is asked to. -/
def Magick.obliging (width height : Int) : Magick where
  readImage _ := some (width, height)
  resizeImage _ width height := some (width, height)
  extentImage _ _ _ _ := true
  compositeImage _ _ := true
  writeImage _ := true

theorem Magick.obliging_succeeds (width height : Int) : (obliging width height).Succeeds :=
  ⟨fun _ => rfl, fun _ _ _ => rfl, fun _ _ _ _ => rfl, fun _ _ => rfl, fun _ => rfl⟩

structure Mark where
  logo : Option Bytes
  x : Int
  y : Int
  deriving DecidableEq

/-- A wand: the path its picture was read from, the canvas, where the scaled picture lies
on it, and the marks drawn over it. -/
structure Image where
  path : Bytes
  width : Int
  height : Int
  left : Int
  top : Int
  rwidth : Int
  rheight : Int
  marks : List Mark
  deriving DecidableEq

/-- What `thumbnail4LargeImgs` tells its caller. One branch fills the misspelt field. -/
structure Placement where
  result : Bool
  rwidth : Option Number
  rheight : Option Number
  rheiht : Option Number
  x : Number
  y : Number
  deriving DecidableEq

namespace Image

def magickName : Bytes := bytes "magick.Image"

def load (magick : Magick) (path : Bytes) : Except LuaError Image :=
  match magick.readImage path with
  | none => .error (.thrown (magickName ++ bytes ": error loading image at path \"" ++ path ++ bytes "\""))
  | some (width, height) => .ok ⟨path, width, height, 0, 0, width, height, []⟩

/-- Without a path the wand stays empty. -/
def new (magick : Magick) (pathOrTensor : Option Bytes) : Except LuaError Image :=
  match pathOrTensor with
  | some path => load magick path
  | none => .ok ⟨bytes "<>", 0, 0, 0, 0, 0, 0, []⟩

def size (image : Image) : Number × Number := (.ofInt image.width, .ofInt image.height)

def resize (magick : Magick) (image : Image) (width height : Number) : Except LuaError Image :=
  match magick.resizeImage (image.width, image.height) width.toInt height.toInt with
  | none => .error (.thrown (magickName ++ bytes ": error resizing image"))
  | some (width, height) => .ok ⟨image.path, width, height, 0, 0, width, height, image.marks⟩

/-- `Image:size` with arguments. A missing side comes from a square box that the picture
must fit in or cover. -/
def setSize (magick : Magick) (image : Image) (width height : Option Number) : Except LuaError Image :=
  let (cwidth, cheight) := image.size
  match width, height with
  | some width, some height => image.resize magick width height
  | some box, none =>
    if Number.lt cheight cwidth then image.resize magick box (box * cheight / cwidth)
    else image.resize magick (box * cwidth / cheight) box
  | none, some box =>
    if Number.lt cwidth cheight then image.resize magick box (box * cheight / cwidth)
    else image.resize magick (box * cwidth / cheight) box
  | none, none => .ok image

/-- The status of the library call is not looked at. -/
def extent (magick : Magick) (image : Image) (width height leftPos topPos : Number) : Image :=
  if magick.extentImage width.toInt height.toInt leftPos.toInt topPos.toInt then
    { image with
      width := width.toInt, height := height.toInt
      left := image.left + leftPos.toInt, top := image.top + topPos.toInt }
  else image

def thumbnail4LargeImgs (magick : Magick) (image : Image) (width height : Option Number) :
    Except LuaError (Placement × Image) :=
  let (cwidth, cheight) := image.size
  match width, height with
  | some width, some height => do
    let (mwidth, mheight) :=
      if Number.lt (height / cheight) (width / cwidth) then (cwidth * (height / cheight), height)
      else (width, cheight * (width / cwidth))
    let image ← image.setSize magick (some mwidth) (some mheight)
    let (cwidth, cheight) := image.size
    let x := (width - cwidth) / 2
    let y := (height - cheight) / 2
    let image :=
      if !Number.eq cwidth width || !Number.eq cheight height then image.extent magick width height x y
      else image
    return (⟨true, some cwidth, some cheight, none, x, y⟩, image)
  | some width, none => do
    if Number.lt cwidth (width * .nearest (11 / 10)) then
      return (⟨false, some cwidth, none, some cheight, 0, 0⟩, image)
    let image ← image.setSize magick (some width) (some (cheight * width / cwidth))
    return (⟨true, some width, some (cheight * width / cwidth), none, 0, 0⟩, image)
  | none, some height => do
    if Number.lt cheight (height * .nearest (11 / 10)) then
      return (⟨false, some cwidth, some cheight, none, 0, 0⟩, image)
    let image ← image.setSize magick (some (cwidth * height / cheight)) (some height)
    return (⟨true, some (cwidth * height / cheight), some height, none, 0, 0⟩, image)
  | none, none => .error .arithmetic

/-- Every caller composes with `OverCompositeOp`, and the two last arguments of the source
are not used. -/
def addWaterMark (magick : Magick) (image : Image) (waterMarkImagePath : Option Bytes) (x y : Number) :
    Except LuaError Image := do
  let _ ← new magick waterMarkImagePath
  if magick.compositeImage x.toInt y.toInt then
    return { image with marks := image.marks ++ [⟨waterMarkImagePath, x.toInt, y.toInt⟩] }
  else
    return image

end Image
end ImageServer
