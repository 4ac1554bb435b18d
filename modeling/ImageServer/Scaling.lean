import ImageServer.Exec
import ImageServer.Image

/-! The scaling of `Image.lua` over any arithmetic, with a record of the sizes that the library is
asked for. Over doubles it is what `Image` has; over rationals it is exact. -/

namespace ImageServer

class Arithmetic (α : Type) extends Add α, Sub α, Mul α, Div α where
  ofInt : ℤ → α
  /-- A numeral that has a fraction. -/
  ofRat : ℚ → α
  lt : α → α → Bool
  eq : α → α → Bool
  toInt : α → ℤ

instance : Arithmetic Number where
  ofInt := Number.ofInt
  ofRat := Number.nearest
  lt := Number.lt
  eq := Number.eq
  toInt := Number.toInt

def truncate (value : ℚ) : ℤ := if 0 ≤ value then ⌊value⌋ else ⌈value⌉

instance : Arithmetic ℚ where
  ofInt := Int.cast
  ofRat := id
  lt a b := decide (a < b)
  eq a b := decide (a = b)
  toInt := truncate

structure Wand where
  image : Image
  /-- The sizes that `MagickResizeImage` was called with. -/
  resizes : List (ℤ × ℤ)

/-- The table that `thumbnail4LargeImgs` returns. -/
structure Report (α : Type) where
  result : Bool
  rwidth : Option α
  rheight : Option α
  rheiht : Option α
  x : α
  y : α

def Report.placement (report : Report Number) : Placement where
  result := report.result
  rwidth := report.rwidth
  rheight := report.rheight
  rheiht := report.rheiht
  x := report.x
  y := report.y

namespace Wand
variable {α : Type} [Arithmetic α]
open Arithmetic

def size : Exec LuaError Wand (α × α) := do
  let wand ← Exec.get
  return (ofInt wand.image.width, ofInt wand.image.height)

def resize (magick : Magick) (width height : α) : Exec LuaError Wand Unit := do
  let wand ← Exec.get
  Exec.modify fun wand => { wand with resizes := wand.resizes ++ [(toInt width, toInt height)] }
  match magick.resizeImage (wand.image.width, wand.image.height) (toInt width) (toInt height) with
  | none => Exec.raise (.thrown (Image.magickName ++ bytes ": error resizing image"))
  | some (width, height) =>
    Exec.modify fun wand =>
      { wand with image := ⟨wand.image.path, width, height, 0, 0, width, height, wand.image.marks⟩ }

def setSize (magick : Magick) (width height : Option α) : Exec LuaError Wand Unit := do
  let (cwidth, cheight) : α × α ← size
  match width, height with
  | some width, some height => resize magick width height
  | some box, none =>
    if lt cheight cwidth then resize magick box (box * cheight / cwidth)
    else resize magick (box * cwidth / cheight) box
  | none, some box =>
    if lt cwidth cheight then resize magick box (box * cheight / cwidth)
    else resize magick (box * cwidth / cheight) box
  | none, none => return

def extent (magick : Magick) (width height leftPos topPos : α) : Exec LuaError Wand Unit :=
  Exec.modify fun wand =>
    if magick.extentImage (toInt width) (toInt height) (toInt leftPos) (toInt topPos) then
      { wand with
        image := { wand.image with
          width := toInt width, height := toInt height
          left := wand.image.left + toInt leftPos, top := wand.image.top + toInt topPos } }
    else wand

def thumbnail4LargeImgs (magick : Magick) (width height : Option α) : Exec LuaError Wand (Report α) := do
  let (cwidth, cheight) : α × α ← size
  match width, height with
  | some width, some height =>
    let (mwidth, mheight) :=
      if lt (height / cheight) (width / cwidth) then (cwidth * (height / cheight), height)
      else (width, cheight * (width / cwidth))
    setSize magick (some mwidth) (some mheight)
    let (cwidth, cheight) : α × α ← size
    let x := (width - cwidth) / ofInt 2
    let y := (height - cheight) / ofInt 2
    if !eq cwidth width || !eq cheight height then
      extent magick width height x y
    return ⟨true, some cwidth, some cheight, none, x, y⟩
  | some width, none =>
    if lt cwidth (width * ofRat (11 / 10)) then
      return ⟨false, some cwidth, none, some cheight, ofInt 0, ofInt 0⟩
    setSize magick (some width) (some (cheight * width / cwidth))
    return ⟨true, some width, some (cheight * width / cwidth), none, ofInt 0, ofInt 0⟩
  | none, some height =>
    if lt cheight (height * ofRat (11 / 10)) then
      return ⟨false, some cwidth, some cheight, none, ofInt 0, ofInt 0⟩
    setSize magick (some (cwidth * height / cheight)) (some height)
    return ⟨true, some (cwidth * height / cheight), some height, none, ofInt 0, ofInt 0⟩
  | none, none => Exec.raise .arithmetic

end Wand
end ImageServer
