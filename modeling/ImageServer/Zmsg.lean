import ImageServer.Exec
import ImageServer.Image
import ImageServer.Multipart
import Mathlib.Data.Nat.Digits.Defs

/-! `zmsg.lua`: messages with an envelope. The parts are kept last part first, so that the
envelope is pushed and popped at the end of the table. -/

namespace ImageServer

/-- The table, from its first index on. -/
abbrev Zmsg := List Bytes

namespace Zmsg
open Multipart

def hexDigit (n : Nat) : UInt8 := UInt8.ofNat (if n < 10 then 48 + n else 55 + n)

/-- `%02X`. -/
def byteToHex (byte : UInt8) : Bytes := [hexDigit (byte.toNat / 16), hexDigit (byte.toNat % 16)]

def hexToByte (hex : Bytes) : Option UInt8 := ((List.range 256).map UInt8.ofNat).find? (byteToHex · = hex)

def assertionFailed : LuaError := .thrown (bytes "assertion failed!")

/-- A part that is missing makes the concatenation fail. -/
def s_encode_uuid (data : Bytes) : Except LuaError Bytes :=
  if data.head? ≠ some 0 then .error assertionFailed
  else if data.length < 17 then .error .argument
  else .ok (64 :: ((data.drop 1).take 16).flatMap byteToHex)

/-- Two digits at a time. -/
def decodeDigits : Nat → Bytes → Option Bytes
  | 0, _ => some []
  | n + 1, uuidstr =>
    match hexToByte (uuidstr.take 2) with
    | none => none
    | some byte => (decodeDigits n (uuidstr.drop 2)).map (byte :: ·)

def s_decode_uuid (uuidstr : Bytes) : Except LuaError Bytes :=
  if uuidstr.head? ≠ some 64 then .error assertionFailed
  else match decodeDigits 16 (uuidstr.drop 1) with
    | none => .error .argument
    | some rest => .ok (0 :: rest)

/-- Swap two places, counted from zero. -/
def swap (t : Zmsg) (i j : Nat) : Zmsg := (t.set i (t.getD j [])).set j (t.getD i [])

def treverse (t : Zmsg) : Zmsg :=
  let len := t.length
  (List.range (len / 2)).foldl (fun t i => swap t i (len - 1 - i)) t

def new (body : Option Bytes) : Zmsg := body.toList

/-- Nothing is pushed for nil. -/
def push (self : Zmsg) (part : Option Bytes) : Zmsg := self ++ part.toList

def pop (self : Zmsg) : Option Bytes × Zmsg := (self.getLast?, self.dropLast)

/-- Identities that the library generates are kept as texts. -/
def recvPart (data : Bytes) : Except LuaError Bytes :=
  if data.length = 17 ∧ data.head? = some 0 then s_encode_uuid data else .ok data

def recvLoop (self : Zmsg) : List Bytes → Except LuaError Zmsg
  | [] => .ok self
  | data :: more => do
    let data ← recvPart data
    recvLoop (self ++ [data]) more

/-- The parts of one message are the parts that the socket has more of. -/
def recv (parts : List Bytes) : Except LuaError Zmsg := do
  let self ← recvLoop (new none) parts
  return treverse self

def sendPart (part : Bytes) : Except LuaError Bytes :=
  if part.length = 33 ∧ part.head? = some 64 then s_decode_uuid part else .ok part

/-- The parts are left from the last index to the first. -/
def sendLoop : List Bytes → Exec LuaError (Outgoing Bytes) Unit
  | [] => pure ()
  | part :: parts => do
    let part ← Exec.lift (sendPart part)
    Exec.modify fun out => out.send part !parts.isEmpty
    sendLoop parts

def send (self : Zmsg) : Exec LuaError (Outgoing Bytes) Unit := sendLoop self.reverse

def body (self : Zmsg) : Option Bytes := self.head?

def address (self : Zmsg) : Option Bytes := self.getLast?

def wrap (self : Zmsg) (address delim : Option Bytes) : Except LuaError Zmsg :=
  match address with
  | none => .error assertionFailed
  | some address => .ok (push (push self delim) (some address))

def unwrap (self : Zmsg) : Option Bytes × Zmsg :=
  let (address, self) := self.pop
  match self.address with
  | some [] => (address, self.pop.2)
  | _ => (address, self)

def hexDigits (n : Nat) : Bytes := if n = 0 then [48] else (Nat.digits 16 n).reverse.map hexDigit

/-- `%08X:`. -/
def sizePrefix (size : Nat) : Bytes := List.replicate (8 - (hexDigits size).length) 48 ++ hexDigits size ++ [58]

def savePart (file part : Bytes) : Bytes := file ++ sizePrefix part.length ++ part

/-- The file after the message was written to its end. -/
def save (self : Zmsg) (file : Bytes) : Bytes := self.reverse.foldl savePart file

/-- `file:read(count)`. At the end of the file there is nil to read, even when nothing is asked for. -/
def read (count : Nat) (file : Bytes) : Option Bytes × Bytes :=
  if file = [] then (none, []) else (some (file.take count), file.drop count)

def hexValue (b : UInt8) : Option Nat :=
  if 48 ≤ b ∧ b ≤ 57 then some (b.toNat - 48)
  else if 65 ≤ b ∧ b ≤ 70 then some (b.toNat - 55)
  else if 97 ≤ b ∧ b ≤ 102 then some (b.toNat - 87)
  else none

def isSpace (b : UInt8) : Bool := b = 32 || (9 ≤ b && b ≤ 13)

/-- The digits at the beginning, and what follows them. -/
def strtoulDigits (text : Bytes) : Option (Nat × Bytes) :=
  match text.takeWhile fun b => (hexValue b).isSome with
  | [] => none
  | digits => some (digits.foldl (fun value b => 16 * value + (hexValue b).getD 0) 0, text.drop digits.length)

/-- A prefix of `0x` counts only before a digit. -/
def strtoulUnsigned (text : Bytes) : Option (Nat × Bytes) :=
  match text with
  | 48 :: x :: rest =>
    if x = 120 ∨ x = 88 then (strtoulDigits rest).or (some (0, x :: rest)) else strtoulDigits text
  | _ => strtoulDigits text

/-- `strtoul` with base 16, where a minus is taken modulo the word. -/
def strtoul (text : Bytes) : Option (Nat × Bytes) :=
  match text.dropWhile isSpace with
  | 43 :: rest => strtoulUnsigned rest
  | 45 :: rest => (strtoulUnsigned rest).map fun (value, rest) => ((2 ^ 64 - value) % 2 ^ 64, rest)
  | rest => strtoulUnsigned rest

/-- `tonumber(text, 16)`, which sees a C string. -/
def tonumber16 (text : Bytes) : Option Nat :=
  match strtoul (text.takeWhile (· ≠ 0)) with
  | some (value, rest) => if rest.all isSpace then some value else none
  | none => none

/-- The fuel bounds the number of parts. A size that is no number is not a format to read with. -/
def loadLoop : Nat → Zmsg → Bytes → Except LuaError Zmsg
  | 0, self, _ => .ok self
  | fuel + 1, self, file =>
    match read 9 file with
    | (none, _) => .ok self
    | (some size, file) =>
      match tonumber16 (size.take 8) with
      | none => .error .argument
      | some size =>
        match read size file with
        | (none, _) => .ok self
        | (some part, file) => loadLoop fuel (self ++ [part]) file

def load (file : Bytes) : Except LuaError Zmsg := do
  let self ← loadLoop (file.length + 1) (new none) file
  return treverse self

end Zmsg
end ImageServer
