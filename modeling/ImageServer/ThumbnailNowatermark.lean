import ImageServer.Thumbnail

/-! `nginx-thumbnail-server/thumbnail_nowatermark.lua`: the second script of the newer server. It has the
originals in common with the first, and a folder of its own for its thumbnails. -/

namespace ImageServer

namespace ThumbnailNowatermark

/-- The name of the empty table is misspelt in the configuration, so there is none at all. -/
def waterMarkImagesKeyls : Option (List WaterMarkKey) := none

def processorConfig : ProcessConfig where
  thumbnailLocation := bytes "/thumbnail_nowatermark/"
  originalImagesRoot := bytes "/www/target/images/public"
  thumbnailImagesRoot := bytes "/www/target/images/thumbnail_nowatermark/"
  permitedSizes := Thumbnail.permitedSizes
  sendMessageFlag := false
  serverUrl := bytes "tcp://localhost:5559"
  sendMessageFlag4EveryReq := false
  waterMarkImagesKeys := waterMarkImagesKeyls
  logoPath := some (bytes "/www/target/logos/watermark-20140524.png")

def processor : ImageProcessor := .new processorConfig

def main (host : Host) (reqPath : Bytes) : Processing Thumbnail.Answer := do
  match ← resolveImageURI host processor reqPath with
  | none => return .exit 404
  | some uri => return .setUri uri

end ThumbnailNowatermark

/-- The scripts that nginx runs, over the files of one machine. -/
inductive Script where
  | thumbnail
  | thumbnailNowatermark
  deriving DecidableEq

namespace Script

def processor : Script → ImageProcessor
  | thumbnail => Thumbnail.processor
  | thumbnailNowatermark => ThumbnailNowatermark.processor

def main : Script → Host → Bytes → Processing Thumbnail.Answer
  | thumbnail => Thumbnail.main
  | thumbnailNowatermark => ThumbnailNowatermark.main

structure Request where
  script : Script
  host : Host
  reqPath : Bytes

def serve (world : World) (request : Request) : World := (request.script.main request.host request.reqPath world).2

end Script
end ImageServer
