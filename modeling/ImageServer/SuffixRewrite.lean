import ImageServer.PathSimbol
import ImageServer.Pcre

/-! `imagestatic.conf`: the location for uploads whose name has a suffix before `.jpg`, and its
rewrite rule, which takes the suffix off and looks for a location again. The location is a search
anywhere in the address, and the rule begins where the address begins. -/

namespace ImageServer.SuffixRewrite
open Regex

/-- `/upload/(.*)/(.*)/(.*)/` -/
def uploadFolders : Regex :=
  .cat (exactly (bytes "/upload/")) (.cat (.group 1 (.many dot)) (.cat (exactly [slash])
    (.cat (.group 2 (.many dot)) (.cat (exactly [slash]) (.cat (.group 3 (.many dot)) (exactly [slash]))))))

/-- `/upload/(.*)/(.*)/(.*)/(.*)\.(.*).\.jpg$` -/
def locationRegex : Regex :=
  .cat uploadFolders (.cat (.group 4 (.many dot)) (.cat (exactly [46]) (.cat (.group 5 (.many dot))
    (.cat (.single dot) (.cat (exactly (bytes ".jpg")) .eol)))))

/-- `\.(.*).jpg$`, where the second dot is any sign. -/
def suffixRegex : Regex :=
  .cat (exactly [46]) (.cat (.group 5 (.many dot)) (.cat (.single dot) (.cat (exactly (bytes "jpg")) .eol)))

/-- `^/upload/(.*)/(.*)/(.*)/(.*)\.(.*).jpg$`, tried at the beginning only. -/
def rewriteRegex : Regex := .cat uploadFolders (.cat (.group 4 (.many dot)) suffixRegex)

def located (uri : Bytes) : Bool := (locationRegex.search uri).isSome

/-- `/upload/$1/$2/$3/$4.jpg` -/
def replacement (groups : Groups) : Bytes :=
  bytes "/upload/" ++ groups 1 ++ [slash] ++ groups 2 ++ [slash] ++ groups 3 ++ [slash] ++ groups 4 ++ bytes ".jpg"

def rewrite (uri : Bytes) : Option Bytes :=
  (rewriteRegex.exec uri noGroups fun _ groups => some groups).map replacement

/-- One pass: the rule runs where the location takes the address. -/
def pass (uri : Bytes) : Option Bytes := if located uri then rewrite uri else none

/-- The rule sends the new address to the locations again. -/
def again : Nat → Bytes → Bytes
  | 0, uri => uri
  | times + 1, uri =>
    match pass uri with
    | some new => again times new
    | none => uri

/-- `/UploadFiles/xiu/brand/(.*)/` -/
def brandFolder : Regex :=
  .cat (exactly (bytes "/UploadFiles/xiu/brand/")) (.cat (.group 1 (.many dot)) (exactly [slash]))

/-- `/UploadFiles/xiu/brand/(.*)/(.*)\.(.*).\.jpg$` -/
def brandLocationRegex : Regex :=
  .cat brandFolder (.cat (.group 2 (.many dot)) (.cat (exactly [46]) (.cat (.group 3 (.many dot))
    (.cat (.single dot) (.cat (exactly (bytes ".jpg")) .eol)))))

def brandLocated (uri : Bytes) : Bool := (brandLocationRegex.search uri).isSome

end ImageServer.SuffixRewrite
