import ImageServer.Pcre
import ImageServer.ThumbnailNowatermark

/-! `nginx-thumbnail-server/nginx.conf` with `thumbnail.lua` behind it. An address of an upload is answered
with the upload if there is one, and goes to the script otherwise, which sends it on to the location of the
thumbnails. nginx and the script have different folders, so where the paths of nginx lead to is a parameter. -/

namespace ImageServer.UploadFront
open Regex

def image_root : Bytes := bytes "/www/image_server/xiu2.0/public/"

/-- `/upload/(.+)` in any case, as the condition tries it. -/
def uploadRegex : Regex := .cat (literal (bytes "/upload/")) (.group 1 (plus dot))

/-- `/upload/(.+)` in this case, as the rewrite rule tries it. -/
def rewriteRegex : Regex := .cat (exactly (bytes "/upload/")) (.group 1 (plus dot))

/-- `$reqPath`, which is empty where it is not set. -/
def reqPath (uri : Bytes) : Bytes :=
  match uploadRegex.search uri with
  | some groups => bytes "/upload/" ++ groups 1
  | none => []

/-- The path of the file that a location sends: two of them have an alias, and the last has the root. -/
def sent (uri : Bytes) : Bytes :=
  if (bytes "/thumbnail/").isPrefixOf uri then image_root ++ bytes "thumbnail/" ++ uri.drop (bytes "/thumbnail/").length
  else if (bytes "/innerImages/").isPrefixOf uri then image_root ++ uri.drop (bytes "/innerImages/").length
  else image_root ++ uri

structure Request where
  uri : Bytes
  /-- What the outside does, if the script is run. -/
  host : Host

def isUpload (uri : Bytes) : Bool := (bytes "/upload/").isPrefixOf uri

variable (mounted : Bytes → Bytes)

/-- What is found at `$image_root$reqPath`. -/
def uploaded (files : Files) (uri : Bytes) : Option File := files (mounted (image_root ++ reqPath uri))

/-- The script, and then the location that it sends the address to. -/
def generate (host : Host) (path : Bytes) (world : World) : Option File × World :=
  match Thumbnail.main host path world with
  | (.ok (.setUri uri), after) => (after.files (mounted (sent uri)), after)
  | (_, after) => (none, after)

/-- Nothing is sent where the address belongs to one of the other two locations. -/
def serve (world : World) (request : Request) : Option File × World :=
  if isUpload request.uri then
    if (uploaded mounted world.files request.uri).isSome then
      if (rewriteRegex.search request.uri).isSome then
        (world.files (mounted (sent (bytes "/innerImages" ++ reqPath request.uri))), world)
      else (none, world)
    else generate mounted request.host (reqPath request.uri) world
  else if (bytes "/hello").isPrefixOf request.uri || (bytes "/outer_thumbnail/").isPrefixOf request.uri then (none, world)
  else (world.files (mounted (sent request.uri)), world)

def step (world : World) (request : Request) : World := (serve mounted world request).2

end ImageServer.UploadFront
