import ImageServer.Runs
import ImageServer.Shop
import Mathlib.Logic.Function.Basic

/-! The router together with its cache, over a table of domains that does not change and with
nothing failing outside. -/

namespace ImageServer.Shop

abbrev Cache := Bytes → Option Text

/-- What stays the same over a run. -/
structure Setting where
  table : Bytes → Option Row
  /-- The keys that the cache client takes. -/
  accepts : Bytes → Bool
  untargeted : Except JavaScript.Error Unit

variable (setting : Setting)

def outsideOf (cache : Cache) : Outside where
  parse _ := .ok ()
  get key := if setting.accepts key then .data (cache key) else .error
  connect := true
  use := true
  select name := some (setting.table name).toList
  untargeted := setting.untargeted

/-- `memcached.add` keeps what is there. -/
def keep (cache : Cache) (key : Bytes) (value : Text) : Cache :=
  if setting.accepts key = true ∧ cache key = none then Function.update cache key (some value) else cache

def remember (cache : Cache) : Action → Cache
  | .add key value => keep setting cache key value
  | _ => cache

inductive Event where
  | request (request : Request)
  /-- A key runs out or is dropped. -/
  | evict (key : Bytes)

/-- The actions of the handler on a request. -/
def actionsOf (cache : Cache) (request : Request) : List Action :=
  (onRequest (outsideOf setting cache) request []).2

def step (cache : Cache) : Event → Cache
  | .request request => (actionsOf setting cache request).foldl (remember setting) cache
  | .evict key => Function.update cache key none

def emptyCache : Cache := fun _ => none

end ImageServer.Shop
