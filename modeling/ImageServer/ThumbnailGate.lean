import ImageServer.Exec
import ImageServer.JavaScript

/-! The gate before the image server. A request passes with a token that decrypts to a file of
its path and to a time that is not over. -/

namespace ImageServer.ThumbnailGate
open JavaScript

def imageServerUrl : Bytes := bytes "http://10.5.7.72:1080/"

def password : Bytes := bytes "mysoft.cloud"

/-- What is read from an address. There is no token when the query has none or more than one. -/
structure Url where
  pathname : Option Text
  token : Option Text

/-- The calls out of the handler. -/
structure Outside where
  parse : Bytes → Except Error Url
  decipher : Text → Bytes → Except Error Text

inductive Action where
  | web (target : Bytes)
  | notFound
  | forbidden
  deriving DecidableEq

/-- The state is what was done so far. -/
abbrev Handler := Exec Error (List Action) Unit

def perform (action : Action) : Handler := Exec.modify (· ++ [action])

def handle404Error : Handler := perform .notFound

def handle403Error : Handler := perform .forbidden

variable (outside : Outside)

/-- What is raised inside is caught, also over a token that is no text. -/
def aesDecrypt (data : Option Text) (secretKey : Bytes) : Option Text :=
  match data with
  | none => none
  | some text =>
    match outside.decipher text secretKey with
    | .ok fileStr => some fileStr
    | .error _ => none

/-- Six hours after the time of the token, in milliseconds. -/
def expiry (timeStr : Text) : Number := parseInt timeStr + 21600000

/-- What follows on the text of the token, split. -/
def answerFields (now : ℤ) (pathname : Option Text) : List Text → Handler
  | [fileId, timeStr] =>
    if (expiry timeStr).lt (.ofInt now) then handle403Error
    else
      match pathname with
      | none => Exec.raise .type
      | some pathname => if indexOf pathname fileId = -1 then handle403Error else perform (.web imageServerUrl)
  | _ => handle403Error

def onRequest (now : ℤ) (url : Bytes) : Handler := do
  let urlObject ← Exec.lift (outside.parse url)
  match aesDecrypt outside urlObject.token password with
  | none => handle404Error
  | some fileStr => answerFields now urlObject.pathname (JavaScript.split fileStr '|')

end ImageServer.ThumbnailGate
