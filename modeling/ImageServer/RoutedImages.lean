import ImageServer.ImageLocator
import ImageServer.SuffixRewrite
import ImageServer.ThumbnailServer

/-! The router with the older thumbnail server behind it. The two are different machines, so the folders
of the router are mounted: where each of its paths leads to among the files of the server is a parameter.
A request for a picture of the gilt store is answered by the router from a file, or is handed over, and
then it may leave a thumbnail for the router to find. -/

namespace ImageServer.RoutedImages
open ImageLocator SuffixRewrite

structure Request where
  uri : Bytes
  hostName : Bytes
  /-- What the outside does, if the thumbnail server is asked. -/
  host : Host

/-- The two locations that are regular expressions come before all the others. -/
def taken (uri : Bytes) : Bool := located uri || brandLocated uri

/-- The address that `ImageLocator.lua` gives the request, if it comes to its location. -/
def address (files : Files) (request : Request) : Option Bytes :=
  if taken request.uri || !(bytes "/cms/giltstore/").isPrefixOf request.uri then none
  else locate files (giltstore request.uri request.hostName)

/-- The path that the thumbnail server is asked for. -/
def handed (files : Files) (request : Request) : Option Bytes :=
  match address files request with
  | some address =>
    if !taken address && THUMNAIL_LOCATION.isPrefixOf address then some (outerThumbnail address) else none
  | none => none

/-- The file behind an address of the two internal locations. -/
def aliased (address : Bytes) : Option Bytes :=
  if taken address then none
  else if INNER_IMAGE_LOCATION.isPrefixOf address then
    some (bytes "/www/target/docdir/images/" ++ address.drop INNER_IMAGE_LOCATION.length)
  else if INNER_THUMBNAIL_LOCATION.isPrefixOf address then
    some (bytes "/www/target/docdir/images/thumbnail/" ++ address.drop INNER_THUMBNAIL_LOCATION.length)
  else none

/-- The files that the router sees. -/
def seen (mounted : Bytes → Bytes) (files : Files) : Files := fun path => files (mounted path)

def serve (mounted : Bytes → Bytes) (self : ThumbnailServer.ImageProcessor) (world : World) (request : Request) : World :=
  match handed (seen mounted world.files) request with
  | some path => (ThumbnailServer.resolveImageURI request.host self path world).2
  | none => world

/-- What the router answers by itself. -/
def answer (mounted : Bytes → Bytes) (files : Files) (request : Request) : Option File :=
  (address (seen mounted files) request).bind fun address => (aliased address).bind (seen mounted files)

end ImageServer.RoutedImages
