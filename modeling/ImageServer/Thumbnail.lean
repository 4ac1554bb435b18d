import ImageServer.ImageProcessor

/-! `nginx-thumbnail-server/thumbnail.lua`: the configuration and the answer to nginx. -/

namespace ImageServer.Thumbnail

def permitedSizes : List Bytes :=
  ["800x600", "600x600", "400x400", "236x80", "220x220", "200x200", "180x180", "160x160", "160x80", "150x150",
    "142x69", "100x100", "80x80", "60x60", "50x50", "480x*", "480x0", "320x0", "320x*", "600x0", "600x*",
    "100x50", "100x60", "200x80", "400x160", "195x80", "98x58", "300x100", "1000x200", "1000x*", "1000x800",
    "210x140", "160x106", "600x400", "150x100", "250x100", "120x120"].map bytes

def waterMarkImagesKeys : List WaterMarkKey :=
  ["supplier-1", "supplier-2", "supplier-3", "supplier-4", "supplier-6", "supplier-7", "supplier-8", "supplier-9",
    "supplier-12", "supplier-13"].map fun folder => ⟨some (bytes folder), some 6, none⟩

def processorConfig : ProcessConfig where
  thumbnailLocation := bytes "/thumbnail/"
  originalImagesRoot := bytes "/www/target/images/public"
  thumbnailImagesRoot := bytes "/www/target/images/thumbnail/"
  permitedSizes := permitedSizes
  sendMessageFlag := false
  serverUrl := bytes "tcp://localhost:5559"
  sendMessageFlag4EveryReq := false
  waterMarkImagesKeys := some waterMarkImagesKeys
  logoPath := some (bytes "/www/target/logos/center.png")

def processor : ImageProcessor := .new processorConfig

inductive Answer where
  | exit (status : Nat)
  | setUri (uri : Bytes)
  deriving DecidableEq

def main (host : Host) (reqPath : Bytes) : Processing Answer := do
  match ← resolveImageURI host processor reqPath with
  | none => return .exit 404
  | some uri => return .setUri uri

end ImageServer.Thumbnail
