import ImageServer.CompressWorker
import Mathlib.Logic.Function.Basic

/-! The message system: senders, `rrbroker.lua` and the one compress worker. Every connection is a
queue of whole messages. A ROUTER socket puts the identity of the peer before what it receives, and
takes the first part of what it sends as the peer to send it to. -/

namespace ImageServer.MessageRouter
open Multipart CompressImage

/-- `format("%04X-%04X", high, low)`. -/
def identityOf (high low : UInt16) : Bytes :=
  let hex4 (n : Nat) := [Zmsg.hexDigit (n / 4096), Zmsg.hexDigit (n / 256 % 16), Zmsg.hexDigit (n / 16 % 16),
    Zmsg.hexDigit (n % 16)]
  hex4 high.toNat ++ 45 :: hex4 low.toNat

/-- Sender sockets with the identities that `sendMessage` makes for them. -/
structure Senders (ι : Type) where
  identity : ι → Bytes
  generated : ∀ i, ∃ high low, identity i = identityOf high low
  distinct : Function.Injective identity

/-- The text of a JSON value, which does not begin with a zero byte. -/
abbrev JsonText : Type := { body : Bytes // body.head? ≠ some 0 }

structure Network (ι : Type) where
  /-- From each sender to the front end. -/
  toBroker : ι → List (List Bytes)
  /-- The sending side of the back end: what is under way to the worker. -/
  toWorker : Outgoing Bytes
  /-- What its socket has sent is under way to the back end. -/
  worker : Worker
  stopped : Option LuaError
  /-- The sending side of the front end. -/
  frontend : Outgoing Bytes
  delivered : ι → List (List Bytes)
  /-- The bodies that each sender has sent. -/
  sent : ι → List Bytes
  /-- The messages that the broker has passed on to the worker, with their senders. -/
  forwarded : List (ι × List Bytes)

inductive Action (ι : Type) where
  | send (sender : ι) (message : JsonText)
  /-- The poller calls the function for the front end, over a message of the sender. -/
  | front (sender : ι)
  /-- The poller calls the function for the back end. -/
  | back
  /-- One turn of the worker's loop. -/
  | work (host : CompressImage.Host)

variable {ι : Type} [DecidableEq ι] (senders : Senders ι)

def Network.start (world : CompressImage.World) : Network ι where
  toBroker _ := []
  toWorker := ⟨[], []⟩
  worker := ⟨world, ⟨[], []⟩, []⟩
  stopped := none
  frontend := ⟨[], []⟩
  delivered _ := []
  sent _ := []
  forwarded := []

/-- A message for nobody is dropped. -/
def route (delivered : ι → List (List Bytes)) (message : List Bytes) : ι → List (List Bytes) :=
  match message with
  | [] => delivered
  | address :: parts => fun i => if senders.identity i = address then delivered i ++ [parts] else delivered i

/-- What cannot be done leaves everything as it is. -/
def step (net : Network ι) : Action ι → Network ι
  | .send i message =>
    { net with
      toBroker := Function.update net.toBroker i (net.toBroker i ++ [[message.1]])
      sent := Function.update net.sent i (net.sent i ++ [message.1]) }
  | .front i =>
    match net.toBroker i with
    | [] => net
    | parts :: rest =>
      { net with
        toBroker := Function.update net.toBroker i rest
        toWorker := relay net.toWorker (senders.identity i :: parts)
        forwarded := net.forwarded ++ [(i, parts)] }
  | .back =>
    match net.worker.out.sent with
    | [] => net
    | parts :: rest =>
      let out := relay net.frontend parts
      { net with
        worker := { net.worker with out := { net.worker.out with sent := rest } }
        frontend := { out with sent := [] }
        delivered := out.sent.foldl (route senders) net.delivered }
  | .work host =>
    match net.stopped, net.toWorker.sent with
    | none, parts :: rest =>
      let turned := turn host parts net.worker
      { net with
        toWorker := { net.toWorker with sent := rest }
        worker := turned.2
        stopped := match turned.1 with
          | .error raised => some raised
          | .ok _ => none }
    | _, _ => net

end ImageServer.MessageRouter
