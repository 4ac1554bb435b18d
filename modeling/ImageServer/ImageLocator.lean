import ImageServer.ImageProcessor
import ImageServer.Pcre

/-! `nginx-router`: the variables that `imagestatic.conf` sets for `/cms/giltstore/` and for
`/upload/`, `ImageLocator.lua` that turns them into an internal location, and the location
`/outer_thumbnail/` of `nginx-thumbnail-server/nginx.conf` that a handed over request arrives
at. -/

namespace ImageServer.ImageLocator
open Regex

def isStarDigit (b : UInt8) : Bool := isDigit b || b == 42

/-- `[.]jpg|[.]gif|[.]png`, without the group around it. -/
def extension : Regex := .alt (literal (bytes ".jpg")) (.alt (literal (bytes ".gif")) (literal (bytes ".png")))

/-- `([?].*)?$`, as the group with the given number. -/
def query (index : Nat) : Regex :=
  .cat (optional (.group index (.cat (.single (caseless 63)) (.many dot)))) .eol

/-- `/cms/giltstore/(.*)[.](jpg|gif|png)([?].*)?$` -/
def imageRegex : Regex :=
  .cat (literal (bytes "/cms/giltstore/")) (.cat (.group 1 (.many dot)) (.cat (.single (caseless 46))
    (.cat (.group 2 (.alt (literal (bytes "jpg")) (.alt (literal (bytes "gif")) (literal (bytes "png"))))) (query 3))))

/-- `/cms/giltstore/(.*)` -/
def anyRegex : Regex := .cat (literal (bytes "/cms/giltstore/")) (.group 1 (.many dot))

/-- `_\d+_[0-9*]+` -/
def sizeRegex : Regex :=
  .cat (.single (caseless 95)) (.cat (plus isDigit) (.cat (.single (caseless 95)) (plus isStarDigit)))

/-- `/cms/giltstore/(.*)(_\d+_[0-9*]+)([.]jpg|[.]gif|[.]png)([?].*)?$` -/
def sizedRegex : Regex :=
  .cat (literal (bytes "/cms/giltstore/")) (.cat (.group 1 (.many dot)) (.cat (.group 2 sizeRegex)
    (.cat (.group 3 extension) (query 4))))

/-- The variables that the location sets. -/
structure Variables where
  reqPath : Bytes
  reqPath1 : Bytes
  thumbnailSupport : Bytes

/-- `location /cms/giltstore/`, one `if` after the other. -/
def giltstore (uri host : Bytes) : Variables :=
  let (reqPath, pathTemp) :=
    match imageRegex.search uri with
    | some groups => (bytes "/cms/giltstore/" ++ groups 1 ++ bytes "_600_0." ++ groups 2,
        bytes "/cms/giltstore/" ++ groups 1 ++ bytes "." ++ groups 2)
    | none => ([], [])
  let reqPath1 :=
    match anyRegex.search uri with
    | some groups => bytes "/cms/giltstore/" ++ groups 1
    | none => []
  let (reqPath, thumbnailSupport) :=
    match sizedRegex.search uri with
    | some groups => (bytes "/cms/giltstore/" ++ groups 1 ++ groups 2 ++ groups 3, bytes "1")
    | none => (reqPath, bytes "0")
  let thumbnailSupport := if ((literal (bytes "zoshow.com")).search host).isSome then bytes "1" else thumbnailSupport
  let reqPath := if thumbnailSupport = bytes "0" then pathTemp else reqPath
  { reqPath, reqPath1, thumbnailSupport }

/-- `/upload/(.*[.]jpg|[.]gif|[.]png)([?].*)?$`. Only the first alternative has room for a name. -/
def uploadImageRegex : Regex :=
  .cat (literal (bytes "/upload/")) (.cat (.group 1 (.alt (.cat (.many dot) (literal (bytes ".jpg")))
    (.alt (literal (bytes ".gif")) (literal (bytes ".png"))))) (query 2))

/-- `/upload/(.*)` -/
def uploadAnyRegex : Regex := .cat (literal (bytes "/upload/")) (.group 1 (.many dot))

/-- `location /upload/`. -/
def upload (uri host : Bytes) : Variables where
  reqPath :=
    match uploadImageRegex.search uri with
    | some groups => bytes "/upload/" ++ groups 1 ++ groups 2
    | none => []
  reqPath1 :=
    match uploadAnyRegex.search uri with
    | some groups => bytes "/upload/" ++ groups 1
    | none => []
  thumbnailSupport := if ((literal (bytes "zoshow.com")).search host).isSome then bytes "1" else bytes "0"

def ORIGINAL_IMAGE_ROOT : Bytes := bytes "/www/target/docdir/images/"
def THUMBNAIL_IMAEG_ROOT : Bytes := bytes "/www/target/docdir/images/thumbnail"
def THUMNAIL_LOCATION : Bytes := bytes "/outer_thumbnail/"
def INNER_IMAGE_LOCATION : Bytes := bytes "/internal_images/"
def INNER_THUMBNAIL_LOCATION : Bytes := bytes "/internal_thumbnail/"

def originalFile (reqPath : Bytes) : Bytes := appendPathSimbol2Tail ORIGINAL_IMAGE_ROOT ++ reqPath

def thumbnailFile (reqPath : Bytes) : Bytes := appendPathSimbol2Tail THUMBNAIL_IMAEG_ROOT ++ reqPath

def getURI (files : Files) (thumbnailSupport reqPath reqPath1 : Bytes) : Option Bytes :=
  if thumbnailSupport = bytes "0" then some (INNER_IMAGE_LOCATION ++ reqPath1)
  else if reqPath = [] then none
  else if isFileExists files (originalFile reqPath) then some (INNER_IMAGE_LOCATION ++ reqPath)
  else if isFileExists files (thumbnailFile reqPath) then some (INNER_THUMBNAIL_LOCATION ++ reqPath)
  else some (THUMNAIL_LOCATION ++ reqPath)

/-- The body of `ImageLocator.lua`: the address given to `ngx.req.set_uri`. -/
def locate (files : Files) (set : Variables) : Option Bytes :=
  getURI files set.thumbnailSupport (removePathSimbolAtHead set.reqPath)
    (removePathSimbolAtHead set.reqPath1)

/-- `/outer_thumbnail/(.+)` -/
def outerRegex : Regex := .cat (literal (bytes "/outer_thumbnail/")) (.group 1 (plus dot))

/-- `location /outer_thumbnail/` of the thumbnail server: the path it works on. -/
def outerThumbnail (uri : Bytes) : Bytes :=
  match outerRegex.search uri with
  | some groups => bytes "/" ++ groups 1
  | none => []

end ImageServer.ImageLocator
