import ImageServer.Exec
import ImageServer.JavaScript

/-! The router of the shop domains. The prefix of the `Host` header decides where a request
goes: by a rule, by what the cache keeps for the prefix, or by the row of the prefix in the
database. Every exit of the handler and of its callbacks is here in the order of the source. -/

namespace ImageServer.Shop
open JavaScript

def supplierWebUrl : Bytes := bytes "http://10.5.7.57:8084"

def developerWebUrl : Bytes := bytes "http://10.5.7.57:8083"

/-- What an integer column can hold. -/
structure SqlInteger where
  value : ℤ
  lower : -2 ^ 63 ≤ value
  upper : value < 2 ^ 64
  deriving DecidableEq

/-- The driver hands integers over as numbers. -/
def SqlInteger.number (integer : SqlInteger) : Number := .nearest integer.value

/-- A row of `bsp_domain`, as far as it is selected. -/
structure Row where
  companyId : Option Text
  type : Option SqlInteger
  deriving DecidableEq

/-- What the cache answers; nothing kept is no text. -/
inductive Got where
  | error
  | data (text : Option Text)

/-- A header is read as one character for each byte. -/
structure Request where
  url : Bytes
  host : Option Bytes

/-- How the calls out of the handler end. -/
structure Outside where
  parse : Bytes → Except Error Unit
  get : Bytes → Got
  connect : Bool
  use : Bool
  /-- Nothing when the query fails. -/
  select : Bytes → Option (List Row)
  /-- `proxy.web` with no target. -/
  untargeted : Except Error Unit

inductive Action where
  | web (target : Option Bytes)
  | notFound
  | add (key : Bytes) (value : Text)
  deriving DecidableEq

/-- The state is what was done so far. A callback that is never called does nothing. -/
abbrev Handler := Exec Error (List Action) Unit

def perform (action : Action) : Handler := Exec.modify (· ++ [action])

def handle404Error : Handler := perform .notFound

/-- The character codes that `toLowerCase` changes below 256. -/
def toLowerCase (text : Bytes) : Bytes :=
  text.map fun c => if (65 ≤ c ∧ c ≤ 90) ∨ (192 ≤ c ∧ c ≤ 222 ∧ c ≠ 215) then c + 32 else c

/-- The first part of the host, without the port. -/
def hostPrefix (host : Bytes) : Bytes :=
  let hosts := (JavaScript.split host 58).headD []
  (JavaScript.split hosts 46).headD []

/-- The rules `/^k\d{6,}$/` and `/^g\d{6,}$/`. -/
def matchesRule (letter : UInt8) : Bytes → Bool
  | first :: digits => first == letter && 6 ≤ digits.length && digits.all isDigit
  | [] => false

def developerRule : Bytes → Bool := matchesRule 107

def supplierRule : Bytes → Bool := matchesRule 103

def cacheKey (name : Bytes) : Bytes := bytes "DOMAIN_" ++ name

def invalid : Text := "invalid".toList

variable (outside : Outside)

def web (target : Option Bytes) : Handler := do
  perform (.web target)
  match target with
  | some _ => pure ()
  | none => Exec.lift outside.untargeted

/-- How both the cached and the stored type are answered: nothing returns after the 404. -/
def answerType (companyType : Number) : Handler :=
  if companyType.eq 1 then web outside (some developerWebUrl)
  else if companyType.eq 2 then web outside (some supplierWebUrl)
  else do
    handle404Error
    web outside none

/-- Neither field of a text that is split is null. -/
def answerCached (data : Text) : Handler :=
  match JavaScript.split data '|' with
  | [_, companyType] => answerType outside (parseInt companyType)
  | _ => handle404Error

def getData (hostPrefix : Bytes) : Handler :=
  match outside.select hostPrefix with
  | none => pure ()
  | some (⟨some companyId, some companyType⟩ :: _) => do
    answerType outside companyType.number
    perform (.add (cacheKey hostPrefix) (companyId ++ '|' :: numberText companyType.number))
  | some _ => do
    handle404Error
    perform (.add (cacheKey hostPrefix) invalid)

def clientConnectionReady (hostPrefix : Bytes) : Handler :=
  if outside.use then getData outside hostPrefix else pure ()

/-- The callback of `connect` names an error that it does not have. -/
def connect (hostPrefix : Bytes) : Handler :=
  if outside.connect then clientConnectionReady outside hostPrefix else Exec.raise .reference

/-- The callback of `memcached.get`. An empty text counts as nothing. -/
def answerGot (got : Got) (hostPrefix : Bytes) : Handler :=
  match got with
  | .error => handle404Error
  | .data (some (c :: rest)) => answerCached outside (c :: rest)
  | .data _ => connect outside hostPrefix

/-- The cache is asked about the prefix in lower case; the prefix as it was sent goes on. -/
def answerPrefix (host : Bytes) : Handler :=
  let lower := toLowerCase (hostPrefix host)
  if developerRule lower then web outside (some developerWebUrl)
  else if supplierRule lower then web outside (some supplierWebUrl)
  else answerGot outside (outside.get (cacheKey lower)) (hostPrefix host)

def onRequest (request : Request) : Handler := do
  Exec.lift (outside.parse request.url)
  match request.host with
  | none => Exec.raise .type
  | some host => answerPrefix outside host

end ImageServer.Shop
