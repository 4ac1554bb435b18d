import ImageServer.CompressWorker

/-! What the worker sends back. The address of a message comes back byte for byte, except for
addresses that look like a text that stands for a generated identity. -/

namespace ImageServer
namespace Zmsg
open Multipart

theorem length_swap (t : Zmsg) (i j : Nat) : (swap t i j).length = t.length := by simp [swap]

theorem getElem?_swap {t : Zmsg} {i j : Nat} (first : i < t.length) (second : j < t.length) (p : Nat) :
    (swap t i j)[p]? = if p = j then t[i]? else if p = i then t[j]? else t[p]? := by
  simp only [swap, List.getElem?_set, List.length_set]
  by_cases last : p = j
  · simp [last, second, List.getD_eq_getElem?_getD, first]
  by_cases front : p = i
  · have apart : i ≠ j := front ▸ last
    simp [front, apart, Ne.symm apart, first, List.getD_eq_getElem?_getD, second]
  · simp [last, front, Ne.symm last, Ne.symm front]

/-- After some swaps the ends have changed places, and the middle is as it was. -/
theorem getElem?_swaps (t : Zmsg) {steps : Nat} (half : steps ≤ t.length / 2) :
    let swapped := (List.range steps).foldl (fun t' i => swap t' i (t.length - 1 - i)) t
    swapped.length = t.length ∧ ∀ p < t.length, swapped[p]? =
      if p < steps ∨ t.length - steps ≤ p then t[t.length - 1 - p]? else t[p]? := by
  induction steps with
  | zero =>
    refine ⟨rfl, ?_⟩
    intro p inside
    rw [if_neg (by omega)]
    rfl
  | succ steps ih =>
    obtain ⟨kept, places⟩ := ih (by omega)
    simp only [List.range_succ, List.foldl_append, List.foldl_cons, List.foldl_nil]
    refine ⟨by rw [length_swap, kept], ?_⟩
    intro p inside
    rw [getElem?_swap (by omega) (by omega)]
    by_cases last : p = t.length - 1 - steps
    · have back : t.length - 1 - p = steps := by omega
      rw [if_pos last, places steps (by omega), if_neg (by omega), if_pos (by omega), back]
    rw [if_neg last]
    by_cases front : p = steps
    · rw [if_pos front, places _ (by omega), if_neg (by omega), if_pos (by omega), front]
    · rw [if_neg front, places p inside]
      by_cases swapped : p < steps ∨ t.length - steps ≤ p
      · rw [if_pos swapped, if_pos (by omega)]
      · rw [if_neg swapped, if_neg (by omega)]

theorem treverse_eq (t : Zmsg) : treverse t = t.reverse := by
  obtain ⟨kept, places⟩ := getElem?_swaps t (Nat.le_refl (t.length / 2))
  have same : (treverse t).length = t.length := kept
  apply List.ext_getElem?
  intro p
  by_cases inside : p < t.length
  · have place : (treverse t)[p]? = _ := places p inside
    rw [place, List.getElem?_reverse inside]
    split
    · rfl
    · have middle : t.length - 1 - p = p := by omega
      rw [middle]
  · rw [List.getElem?_eq_none (by omega), List.getElem?_eq_none (by simpa using inside)]

theorem hexDigit_injective {a b : Nat} (small : a < 16) (small' : b < 16) (same : hexDigit a = hexDigit b) : a = b := by
  have values := congrArg UInt8.toNat same
  simp only [hexDigit, UInt8.toNat_ofNat'] at values
  split at values <;> split at values <;> omega

theorem byteToHex_injective {a b : UInt8} (same : byteToHex a = byteToHex b) : a = b := by
  simp only [byteToHex, List.cons.injEq, and_true] at same
  have bounded := a.toNat_lt
  have bounded' := b.toNat_lt
  have high := hexDigit_injective (by omega) (by omega) same.1
  have low := hexDigit_injective (by omega) (by omega) same.2
  apply UInt8.toNat_inj.mp
  omega

theorem hexToByte_byteToHex (byte : UInt8) : hexToByte (byteToHex byte) = some byte := by
  have listed : byte ∈ (List.range 256).map UInt8.ofNat :=
    List.mem_map.mpr ⟨byte.toNat, List.mem_range.mpr byte.toNat_lt, UInt8.ofNat_toNat⟩
  unfold hexToByte
  cases found : ((List.range 256).map UInt8.ofNat).find? (byteToHex · = byteToHex byte) with
  | none =>
    have missed := List.find?_eq_none.mp found byte listed
    simp at missed
  | some other =>
    have same := List.find?_some found
    rw [byteToHex_injective (of_decide_eq_true same)]

theorem decodeDigits_digits (data : Bytes) : decodeDigits data.length (data.flatMap byteToHex) = some data := by
  induction data with
  | nil => rfl
  | cons byte data ih =>
    have first : ((byte :: data).flatMap byteToHex).take 2 = byteToHex byte := rfl
    have rest : ((byte :: data).flatMap byteToHex).drop 2 = data.flatMap byteToHex := rfl
    rw [List.length_cons, decodeDigits, first, rest, hexToByte_byteToHex, ih]
    rfl

theorem length_decodeDigits {n : Nat} {digits data : Bytes} (decoded : decodeDigits n digits = some data) :
    data.length = n := by
  induction n generalizing digits data with
  | zero =>
    cases decoded
    rfl
  | succ n ih =>
    rw [decodeDigits] at decoded
    split at decoded
    · cases decoded
    next byte _ =>
      obtain ⟨rest, done, rfl⟩ := Option.map_eq_some_iff.mp decoded
      rw [List.length_cons, ih done]

/-- An address that is read and then written is as it was, unless it looks like one that was read. -/
theorem address_back {address : Bytes} (plain : ¬ (address.length = 33 ∧ address.head? = some 64)) :
    ∃ text, recvPart address = .ok text ∧ sendPart text = .ok address := by
  by_cases generated : address.length = 17 ∧ address.head? = some 0
  · obtain ⟨rest, rfl⟩ := List.head?_eq_some_iff.mp generated.2
    have sixteen : rest.length = 16 := by simpa using generated.1
    have digits : (rest.flatMap byteToHex).length = 32 := by
      simp [List.length_flatMap, byteToHex, sixteen]
    have read := decodeDigits_digits rest
    rw [sixteen] at read
    refine ⟨64 :: rest.flatMap byteToHex, ?_, ?_⟩
    · simp [recvPart, s_encode_uuid, sixteen, List.take_of_length_le]
    · simp [sendPart, s_decode_uuid, digits, read]
  · exact ⟨address, by rw [recvPart, if_neg generated], by rw [sendPart, if_neg plain]⟩

theorem address_lost {address back : Bytes} (long : address.length = 33 ∧ address.head? = some 64)
    (sent : sendPart address = .ok back) : back.length = 17 := by
  rw [sendPart, if_pos long, s_decode_uuid, if_neg (by simp [long.2])] at sent
  split at sent
  · cases sent
  next rest decoded =>
    cases sent
    rw [List.length_cons, length_decodeDigits decoded]

theorem recv_two {address body first second : Bytes} (read : recvPart address = .ok first)
    (read' : recvPart body = .ok second) : recv [address, body] = .ok [second, first] := by
  simp [recv, recvLoop, read, read', bind, Except.bind, new, treverse_eq, pure, Except.pure]

theorem recvPart_succeeds (data : Bytes) : ∃ text, recvPart data = .ok text ∧ (data ≠ [] → text ≠ []) := by
  by_cases generated : data.length = 17 ∧ data.head? = some 0
  · refine ⟨64 :: ((data.drop 1).take 16).flatMap byteToHex, ?_, by simp⟩
    simp [recvPart, generated, s_encode_uuid]
  · exact ⟨data, by rw [recvPart, if_neg generated], id⟩

end Zmsg

namespace CompressImage
open Multipart Zmsg

def statusOf : Except LuaError Bool → Bytes
  | .error _ => bytes "failed"
  | .ok _ => bytes "success"

theorem statusOf_cases (result : Except LuaError Bool) :
    statusOf result = bytes "failed" ∨ statusOf result = bytes "success" := by
  cases result with
  | error raised => exact Or.inl rfl
  | ok flag => exact Or.inr rfl

theorem sendPart_status (result : Except LuaError Bool) : sendPart (statusOf result) = .ok (statusOf result) := by
  have short : (statusOf result).length ≠ 33 := by
    rcases statusOf_cases result with failed | success
    · rw [failed]; decide
    · rw [success]; decide
  rw [sendPart, if_neg (fun long => short long.1)]

theorem answer_body (host : Host) {jsonMsg : Bytes} (present : jsonMsg ≠ []) (world : World) :
    answer host (some jsonMsg) world =
      (.ok (some (statusOf (onMessageArrive host jsonMsg world).1)), (onMessageArrive host jsonMsg world).2) := by
  have long : 0 < Lua.len jsonMsg := by
    have positive := List.length_pos_of_ne_nil present
    simp only [Lua.len]
    omega
  simp only [answer, long, if_true, Exec.bind_run, Exec.pcall_run]
  cases (onMessageArrive host jsonMsg world).1 <;> rfl

theorem answer_empty (host : Host) (world : World) : answer host (some []) world = (.ok none, world) := rfl

/-- The reply goes out as one message, if its address can be written. -/
theorem reply_run (text : Bytes) (result : Except LuaError Bool) (worker : Worker) :
    reply (some text) (statusOf result) worker = match sendPart text with
      | .error raised => (.error raised, worker)
      | .ok address => (.ok (), { worker with
          out := ⟨worker.out.sent ++ [worker.out.started ++ [address, statusOf result]], []⟩ }) := by
  have parts : (push (push (new none) (some (statusOf result))) (some text)).reverse = [text, statusOf result] := rfl
  simp only [reply, onSocket, Zmsg.send, parts, sendLoop, Exec.bind_run, Exec.lift_run]
  cases sendPart text with
  | error raised => rfl
  | ok address =>
    simp only [Exec.modify_run, sendPart_status, Exec.pure_run]
    simp [Outgoing.send]

theorem turn_body (host : Host) {address body first second : Bytes} (read : recvPart address = .ok first)
    (read' : recvPart body = .ok second) (present : second ≠ []) (worker : Worker) :
    let arrived := onMessageArrive host second worker.world
    turn host [address, body] worker = reply (some first) (statusOf arrived.1)
      { worker with
        world := arrived.2, handled := worker.handled ++ [⟨some first, some second, statusOf arrived.1⟩] } := by
  intro arrived
  simp only [turn, Exec.bind_run, Exec.lift_run, recv_two read read', pop, List.getLast?_cons_cons,
    List.getLast?_singleton, List.dropLast_cons_cons, List.dropLast_singleton, onWorld, answer_body host present,
    Exec.modify_run, arrived]

theorem turn_empty (host : Host) {address first : Bytes} (read : recvPart address = .ok first) (worker : Worker) :
    turn host [address, []] worker = (.ok (), worker) := by
  have empty : recvPart [] = .ok [] := rfl
  simp only [turn, Exec.bind_run, Exec.lift_run, recv_two read empty, pop, List.getLast?_cons_cons,
    List.getLast?_singleton, List.dropLast_cons_cons, List.dropLast_singleton, onWorld, answer_empty, Exec.pure_run]

/-- The turn ends, and one reply went back to the address with one of the two statuses. -/
def AnswersOnce (host : Host) (address body : Bytes) (worker : Worker) : Prop :=
  ∃ status after, (status = bytes "success" ∨ status = bytes "failed") ∧
    turn host [address, body] worker = (.ok (), after) ∧ after.out = ⟨worker.out.sent ++ [[address, status]], []⟩

theorem turn_answered (host : Host) {address body first second : Bytes} (read : recvPart address = .ok first)
    (back : sendPart first = .ok address) (read' : recvPart body = .ok second) (present : second ≠ []) (worker : Worker) :
    let arrived := onMessageArrive host second worker.world
    turn host [address, body] worker = (.ok (), {
      world := arrived.2
      out := ⟨worker.out.sent ++ [worker.out.started ++ [address, statusOf arrived.1]], []⟩
      handled := worker.handled ++ [⟨some first, some second, statusOf arrived.1⟩] }) := by
  intro arrived
  rw [turn_body host read read' present, reply_run, back]

/-- The worker answers every address but those that look like the text for a generated one. -/
theorem turn_answers_once_iff (host : Host) (address : Bytes) {body : Bytes} (present : body ≠ []) (worker : Worker)
    (idle : worker.out.started = []) :
    AnswersOnce host address body worker ↔ ¬ (address.length = 33 ∧ address.head? = some 64) := by
  obtain ⟨second, read', nonempty⟩ := recvPart_succeeds body
  constructor
  · rintro ⟨status, after, -, done, sent⟩ long
    have read : recvPart address = .ok address := by
      rw [recvPart, if_neg (fun generated => by omega)]
    rw [turn_body host read read' (nonempty present), reply_run] at done
    cases written : sendPart address with
    | error raised => simp [written] at done
    | ok back =>
      have short := address_lost long written
      rw [written] at done
      cases done
      simp only [idle, List.nil_append, Outgoing.mk.injEq, List.append_cancel_left_eq, List.cons.injEq] at sent
      rw [sent.1.1.1] at short
      omega
  · intro plain
    obtain ⟨first, read, back⟩ := address_back plain
    have done := turn_answered host read back read' (nonempty present) worker
    rw [idle] at done
    exact ⟨_, _, (statusOf_cases _).symm, done, rfl⟩

def fresh : Worker := ⟨⟨fun _ => none, [], []⟩, ⟨[], []⟩, []⟩

theorem generated_address_answered :
    AnswersOnce (.running id ⟨true, .complete⟩ fun _ => .error .argument) (0 :: List.replicate 16 171) (bytes "x") fresh :=
  (turn_answers_once_iff _ (0 :: List.replicate 16 171) (by decide) fresh rfl).mpr (by decide)

/-- An address of 33 bytes with no digits in it stops the worker. -/
theorem long_address_stops :
    let address : Bytes := 64 :: List.replicate 32 120
    let host := Host.running id ⟨true, .complete⟩ fun _ => .error .argument
    (turn host [address, bytes "x"] fresh).1 = .error .argument ∧ ¬ AnswersOnce host address (bytes "x") fresh := by
  intro address host
  have stopped : (turn host [address, bytes "x"] fresh).1 = .error .argument := by decide +kernel
  refine ⟨stopped, ?_⟩
  intro holds
  obtain ⟨status, after, -, done, -⟩ := holds
  rw [done] at stopped
  cases stopped

end CompressImage
end ImageServer
