/-! Messages of several parts, as sockets take and give them. A part is sent with a flag that
says whether more parts follow, and what is sent up to a part without it is one message. -/

namespace ImageServer.Multipart

/-- The sending side of a socket. -/
structure Outgoing (α : Type) where
  sent : List (List α)
  started : List α

variable {α : Type}

def Outgoing.send (out : Outgoing α) (part : α) (more : Bool) : Outgoing α :=
  if more then { out with started := out.started ++ [part] }
  else { sent := out.sent ++ [out.started ++ [part]], started := [] }

/-- Pass a message on part by part, for as long as the receiving side has more of it. -/
def relay (out : Outgoing α) : List α → Outgoing α
  | [] => out
  | msg :: parts => relay (out.send msg !parts.isEmpty) parts

/-- What was started is ended by the last part, and nothing stays open. -/
theorem relay_parts {parts : List α} (some : parts ≠ []) (out : Outgoing α) :
    relay out parts = { sent := out.sent ++ [out.started ++ parts], started := [] } := by
  induction parts generalizing out with
  | nil => exact absurd rfl some
  | cons msg parts ih =>
    cases parts with
    | nil => rfl
    | cons next parts =>
      rw [relay, ih (by simp)]
      simp [Outgoing.send]

end ImageServer.Multipart
