import ImageServer.Runs
import ImageServer.ShopCache

/-! The router of the shop domains over time. Every call out of the handler is answered later or
never, other requests come between, the table of domains changes, and what is kept runs out. -/

namespace ImageServer.ShopTime
open JavaScript Shop

/-- The seconds that `memcached.add` is given. -/
def lifetime : ℕ := 600

/-- The world of the router, and what the router waits for: the cache about a host, the database
about a prefix, and texts that are to be added. -/
structure Moment where
  now : ℕ
  table : Bytes → Option Row
  /-- Each text with the time at which it runs out. -/
  kept : Bytes → Option (Text × ℕ)
  asking : List Bytes
  selecting : List Bytes
  adding : List (Bytes × Text)

inductive Event where
  | request (request : Request)
  /-- The cache is read, and the callback of `memcached.get` is called. -/
  | got (host : Bytes)
  /-- The callback of `memcached.get` is called with an error. -/
  | failed (host : Bytes)
  /-- The row is read, and the callback of the query is called. -/
  | selected (name : Bytes)
  /-- An added text reaches the cache. -/
  | landed (key : Bytes) (text : Text)
  | evict (key : Bytes)
  | store (name : Bytes) (row : Option Row)
  | wait (seconds : ℕ)

def Moment.cache (moment : Moment) : Cache :=
  fun key => ((moment.kept key).filter fun item => decide (moment.now < item.2)).map Prod.fst

variable (setting : Setting)

def start : Moment := ⟨0, setting.table, fun _ => none, [], [], []⟩

def outsideAt (moment : Moment) : Outside :=
  outsideOf { setting with table := moment.table } moment.cache

def lowerKey (host : Bytes) : Bytes := cacheKey (toLowerCase (hostPrefix host))

/-- A rule decides before the cache is asked. -/
def ruled (host : Bytes) : Bool :=
  developerRule (toLowerCase (hostPrefix host)) || supplierRule (toLowerCase (hostPrefix host))

/-- An empty text counts as nothing, and the database is asked. -/
def Got.missing : Got → Bool
  | .error => false
  | .data text => text.getD [] = []

/-- What the router does at an event. A callback that nothing waits for is not called. -/
def actionsAt (moment : Moment) : Event → List Action
  | .request ⟨_, some host⟩ => if ruled host then (answerPrefix (outsideAt setting moment) host []).2 else []
  | .got host =>
    let got := (outsideAt setting moment).get (lowerKey host)
    if host ∈ moment.asking ∧ Got.missing got = false then
      (answerGot (outsideAt setting moment) got (hostPrefix host) []).2
    else []
  | .failed host =>
    if host ∈ moment.asking then (answerGot (outsideAt setting moment) .error (hostPrefix host) []).2 else []
  | .selected name =>
    if name ∈ moment.selecting then (clientConnectionReady (outsideAt setting moment) name []).2 else []
  | _ => []

def calls : List Action → List (Bytes × Text)
  | .add key text :: rest => (key, text) :: calls rest
  | _ :: rest => calls rest
  | [] => []

/-- What an event changes besides the texts that the router adds at it. -/
def next (moment : Moment) : Event → Moment
  | .request ⟨_, some host⟩ =>
    if ruled host then moment else { moment with asking := moment.asking ++ [host] }
  | .request _ => moment
  | .got host =>
    if host ∈ moment.asking then
      { moment with
        asking := moment.asking.erase host
        selecting :=
          if Got.missing ((outsideAt setting moment).get (lowerKey host)) then moment.selecting ++ [hostPrefix host]
          else moment.selecting }
    else moment
  | .failed host => { moment with asking := moment.asking.erase host }
  | .selected name => { moment with selecting := moment.selecting.erase name }
  | .landed key text =>
    if (key, text) ∈ moment.adding then
      { moment with
        adding := moment.adding.erase (key, text)
        kept :=
          if setting.accepts key = true ∧ moment.cache key = none then
            Function.update moment.kept key (some (text, moment.now + lifetime))
          else moment.kept }
    else moment
  | .evict key => { moment with kept := Function.update moment.kept key none }
  | .store name row => { moment with table := Function.update moment.table name row }
  | .wait seconds => { moment with now := moment.now + seconds }

def step (moment : Moment) (event : Event) : Moment :=
  let moved := next setting moment event
  { moved with adding := moved.adding ++ calls (actionsAt setting moment event) }

/-- The moment after a run. -/
def after (events : List Event) : Moment := Runs.run (step setting) (start setting) events

end ImageServer.ShopTime
