import ImageServer.CompressImage
import ImageServer.Zmsg

/-! The main loop of `compressimage.lua`: one message in, at most one answer out. -/

namespace ImageServer.CompressImage
open Multipart

/-- What was answered to a message. -/
structure Handled where
  address : Option Bytes
  jsonMsg : Option Bytes
  status : Bytes
  deriving DecidableEq

structure Worker where
  world : World
  out : Outgoing Bytes
  handled : List Handled

abbrev Working (α : Type) : Type := Exec LuaError Worker α

def onWorld {α : Type} (program : Handling α) : Working α := fun worker =>
  ((program worker.world).1, { worker with world := (program worker.world).2 })

def onSocket {α : Type} (program : Exec LuaError (Outgoing Bytes) α) : Working α := fun worker =>
  ((program worker.out).1, { worker with out := (program worker.out).2 })

/-- The status for a message, if it has a body. What `onMessageArrive` returns is not looked at. -/
def answer (host : Host) (jsonMsg : Option Bytes) : Handling (Option Bytes) :=
  match jsonMsg with
  | none => return none
  | some jsonMsg => do
    if 0 < Lua.len jsonMsg then
      match ← Exec.pcall (onMessageArrive host jsonMsg) with
      | .error _ => return some (bytes "failed")
      | .ok _ => return some (bytes "success")
    else
      return none

def reply (address : Option Bytes) (status : Bytes) : Working Unit :=
  onSocket (Zmsg.send ((Zmsg.push (Zmsg.push (Zmsg.new none) (some status)) address)))

/-- One turn of the loop, for the parts of the next message. -/
def turn (host : Host) (parts : List Bytes) : Working Unit := do
  let aZmsg ← Exec.lift (Zmsg.recv parts)
  let (address, aZmsg) := aZmsg.pop
  let (jsonMsg, _) := aZmsg.pop
  match ← onWorld (answer host jsonMsg) with
  | none => return ()
  | some status =>
    Exec.modify fun worker => { worker with handled := worker.handled ++ [⟨address, jsonMsg, status⟩] }
    reply address status

end ImageServer.CompressImage
