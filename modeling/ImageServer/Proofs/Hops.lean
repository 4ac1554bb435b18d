import ImageServer.Proofs.Envelopes

/-! Messages from one program to the next. A message crosses a socket unchanged if none of its parts is
taken for an identity that it is not, and the envelopes that programs put around it come off again in
the opposite order. -/

namespace ImageServer.Zmsg
open Multipart

/-- What the library makes of the text of an identity, and of an identity. -/
def Textual (part : Bytes) : Prop := part.length = 33 ∧ part.head? = some 64

def Binary (part : Bytes) : Prop := part.length = 17 ∧ part.head? = some 0

/-- No raw identity, and no text that only looks like one. -/
def Kept (part : Bytes) : Prop := ¬ Binary part ∧ (Textual part → ∃ data : Bytes, part = 64 :: data.flatMap byteToHex)

theorem byteToHex_of_hexToByte {hex : Bytes} {byte : UInt8} (found : hexToByte hex = some byte) :
    byteToHex byte = hex := by
  have same := List.find?_some found
  exact of_decide_eq_true same

theorem digits_of_decodeDigits {n : Nat} {digits data : Bytes} (exact : digits.length = 2 * n)
    (decoded : decodeDigits n digits = some data) : digits = data.flatMap byteToHex := by
  induction n generalizing digits data with
  | zero =>
    cases decoded
    exact List.eq_nil_of_length_eq_zero exact
  | succ n ih =>
    rw [decodeDigits] at decoded
    split at decoded
    · cases decoded
    next byte found =>
      obtain ⟨rest, done, rfl⟩ := Option.map_eq_some_iff.mp decoded
      have later := ih (by rw [List.length_drop]; omega) done
      rw [List.flatMap_cons, ← later, byteToHex_of_hexToByte found, List.take_append_drop]

theorem length_digits (data : Bytes) : (data.flatMap byteToHex).length = 2 * data.length := by
  simp [List.length_flatMap, byteToHex, Nat.mul_comm]

theorem recvPart_binary {rest : Bytes} (sixteen : rest.length = 16) :
    recvPart (0 :: rest) = .ok (64 :: rest.flatMap byteToHex) := by
  simp [recvPart, s_encode_uuid, sixteen, List.take_of_length_le]

/-- One part, written and then read. -/
theorem crosses_part_iff (part : Bytes) : (∃ data, sendPart part = .ok data ∧ recvPart data = .ok part) ↔ Kept part := by
  by_cases textual : Textual part
  · have other : ¬ Binary part := fun binary => by have := binary.1; have := textual.1; omega
    obtain ⟨digits, rfl⟩ := List.head?_eq_some_iff.mp textual.2
    have long : digits.length = 2 * 16 := by simpa using textual.1
    have written : sendPart (64 :: digits) = s_decode_uuid (64 :: digits) := if_pos textual
    rw [written]
    constructor
    · rintro ⟨data, sent, read⟩
      refine ⟨other, fun _ => ?_⟩
      cases decoded : decodeDigits 16 digits with
      | none => simp [s_decode_uuid, decoded] at sent
      | some rest => exact ⟨rest, by rw [digits_of_decodeDigits long decoded]⟩
    · rintro ⟨-, text⟩
      obtain ⟨data, same⟩ := text textual
      cases same
      have sixteen : data.length = 16 := by
        rw [length_digits] at long
        omega
      have decoded := decodeDigits_digits data
      rw [sixteen] at decoded
      exact ⟨0 :: data, by simp [s_decode_uuid, decoded], recvPart_binary sixteen⟩
  · have written : sendPart part = .ok part := if_neg textual
    by_cases binary : Binary part
    · refine iff_of_false ?_ fun kept => kept.1 binary
      rintro ⟨data, sent, read⟩
      cases written.symm.trans sent
      obtain ⟨rest, rfl⟩ := List.head?_eq_some_iff.mp binary.2
      rw [recvPart_binary (by simpa using binary.1)] at read
      exact absurd (List.cons.inj (Except.ok.inj read)).1 (by decide)
    · exact iff_of_true ⟨part, written, if_neg binary⟩ ⟨binary, fun text => absurd text textual⟩

theorem sendLoop_ok {parts : List Bytes} (some : parts ≠ []) {out after : Outgoing Bytes}
    (done : sendLoop parts out = (.ok (), after)) :
    ∃ data, List.Forall₂ (fun part data => sendPart part = .ok data) parts data ∧
      after = ⟨out.sent ++ [out.started ++ data], []⟩ := by
  induction parts generalizing out with
  | nil => exact absurd rfl some
  | cons part parts ih =>
    obtain ⟨first, middle, written, rest⟩ := Exec.ok_of_bind done
    rw [Exec.lift_run, Prod.mk.injEq] at written
    obtain ⟨sent, rfl⟩ := written
    obtain ⟨_, between, passed, rest⟩ := Exec.ok_of_bind rest
    rw [Exec.modify_run, Prod.mk.injEq] at passed
    obtain ⟨-, rfl⟩ := passed
    cases parts with
    | nil =>
      cases rest
      exact ⟨[first], .cons sent .nil, by simp [Outgoing.send]⟩
    | cons next parts =>
      obtain ⟨data, more, rfl⟩ := ih (by simp) rest
      exact ⟨first :: data, .cons sent more, by simp [Outgoing.send]⟩

theorem sendLoop_run {parts data : List Bytes} (some : parts ≠ [])
    (written : List.Forall₂ (fun part data => sendPart part = .ok data) parts data) (out : Outgoing Bytes) :
    sendLoop parts out = (.ok (), ⟨out.sent ++ [out.started ++ data], []⟩) := by
  induction written generalizing out with
  | nil => exact absurd rfl some
  | @cons part first parts data sent more ih =>
    rw [sendLoop]
    simp only [Exec.bind_run, Exec.lift_run, sent, Exec.modify_run]
    cases more with
    | nil => simp [sendLoop, Outgoing.send]
    | cons _ _ =>
      rw [ih (by simp)]
      simp [Outgoing.send]

theorem recvLoop_ok {self loaded : Zmsg} {data : List Bytes} (done : recvLoop self data = .ok loaded) :
    ∃ texts, loaded = self ++ texts ∧ List.Forall₂ (fun data text => recvPart data = .ok text) data texts := by
  induction data generalizing self with
  | nil =>
    cases done
    exact ⟨[], by simp, .nil⟩
  | cons first data ih =>
    rw [recvLoop] at done
    cases read : recvPart first with
    | error raised => simp [read, bind, Except.bind] at done
    | ok text =>
      rw [read] at done
      obtain ⟨texts, rfl, more⟩ := ih done
      exact ⟨text :: texts, by simp, .cons read more⟩

theorem recvLoop_run {data texts : List Bytes} (read : List.Forall₂ (fun data text => recvPart data = .ok text) data texts)
    (self : Zmsg) : recvLoop self data = .ok (self ++ texts) := by
  induction read generalizing self with
  | nil => simp [recvLoop]
  | @cons first text data texts read more ih =>
    have later := ih (self ++ [text])
    rw [recvLoop, read]
    simpa [bind, Except.bind] using later

theorem recv_ok_iff (parts : List Bytes) (self : Zmsg) :
    recv parts = .ok self ↔ List.Forall₂ (fun data text => recvPart data = .ok text) parts self.reverse := by
  constructor
  · intro done
    cases loaded : recvLoop (new none) parts with
    | error raised => simp [recv, loaded, bind, Except.bind] at done
    | ok texts =>
      simp only [recv, loaded, bind, Except.bind, pure, Except.pure, treverse_eq, Except.ok.injEq] at done
      obtain ⟨texts, rfl, read⟩ := recvLoop_ok loaded
      rw [← done, List.reverse_reverse]
      exact read
  · intro read
    rw [recv, recvLoop_run read]
    simp [bind, Except.bind, pure, Except.pure, treverse_eq, new]

/-- A message comes out of the other socket as it went in exactly when it has no raw identity and no
text that only looks like one. -/
theorem crosses_iff (self : Zmsg) (some : self ≠ []) (sent : List (List Bytes)) :
    (∃ parts, send self ⟨sent, []⟩ = (.ok (), ⟨sent ++ [parts], []⟩) ∧ recv parts = .ok self) ↔
      ∀ part ∈ self, Kept part := by
  have some' : self.reverse ≠ [] := by simpa using some
  constructor
  · rintro ⟨parts, written, read⟩ part member
    obtain ⟨data, passed, same⟩ := sendLoop_ok some' written
    simp only [List.nil_append, Outgoing.mk.injEq, List.append_cancel_left_eq, List.cons.injEq, and_true] at same
    subst same
    have both := (recv_ok_iff parts self).mp read
    obtain ⟨place, inside, rfl⟩ := List.mem_iff_getElem.mp (List.mem_reverse.mpr member)
    have first := List.forall₂_iff_get.mp passed
    have second := List.forall₂_iff_get.mp both
    have between : place < parts.length := first.1 ▸ inside
    exact (crosses_part_iff _).mp ⟨parts[place], first.2 place inside between, second.2 place between inside⟩
  · intro kept
    have crossing : ∀ texts : List Bytes, (∀ part ∈ texts, Kept part) → ∃ data,
        List.Forall₂ (fun part data => sendPart part = .ok data) texts data ∧
          List.Forall₂ (fun data text => recvPart data = .ok text) data texts := by
      intro texts kept
      induction texts with
      | nil => exact ⟨[], .nil, .nil⟩
      | cons part texts ih =>
        obtain ⟨first, passed, read⟩ := (crosses_part_iff part).mpr (kept part List.mem_cons_self)
        obtain ⟨data, written, taken⟩ := ih fun other member => kept other (List.mem_cons_of_mem part member)
        exact ⟨first :: data, .cons passed written, .cons read taken⟩
    obtain ⟨parts, written, taken⟩ := crossing self.reverse fun part member => kept part (List.mem_reverse.mp member)
    refine ⟨parts, ?_, (recv_ok_iff parts self).mpr taken⟩
    exact sendLoop_run some' written ⟨sent, []⟩

theorem crosses_request : ∃ parts, send [bytes "{}", 64 :: (List.replicate 16 171).flatMap byteToHex] ⟨[], []⟩ =
    (.ok (), ⟨[] ++ [parts], []⟩) ∧ recv parts = .ok [bytes "{}", 64 :: (List.replicate 16 171).flatMap byteToHex] := by
  refine (crosses_iff [bytes "{}", 64 :: (List.replicate 16 171).flatMap byteToHex] (by simp) []).mpr ?_
  intro part member
  rcases List.mem_cons.mp member with rfl | member
  · exact ⟨by simp [Binary, bytes], by simp [Textual, bytes]⟩
  · rw [List.mem_singleton.mp member]
    exact ⟨by simp [Binary], fun _ => ⟨_, rfl⟩⟩

/-- One program that a message goes through: the address it puts on, and the delimiter under it. -/
structure Hop where
  address : Bytes
  delim : Option Bytes
  named : address ≠ []
  empty : ∀ text, delim = some text → text = []

def wrapAll (self : Zmsg) (hops : List Hop) : Except LuaError Zmsg :=
  hops.foldlM (fun self hop => wrap self (some hop.address) hop.delim) self

/-- The addresses taken off, and what is left. -/
def unwrapAll : Nat → Zmsg → List (Option Bytes) × Zmsg
  | 0, self => ([], self)
  | count + 1, self =>
    let (address, self) := unwrap self
    let (addresses, self) := unwrapAll count self
    (address :: addresses, self)

theorem wrap_eq (self : Zmsg) (hop : Hop) :
    wrap self (some hop.address) hop.delim = .ok (self ++ hop.delim.toList ++ [hop.address]) := rfl

theorem unwrap_wrapped (self : Zmsg) (hop : Hop) : unwrap (self ++ hop.delim.toList ++ [hop.address]) =
    (some hop.address, if hop.delim = none ∧ self.getLast? = some [] then self.dropLast else self) := by
  simp only [unwrap, pop, address, List.getLast?_concat, List.dropLast_concat]
  cases delim : hop.delim with
  | none =>
    simp only [Option.toList_none, List.append_nil, true_and]
    split
    next last => rw [if_pos last]
    next other => rw [if_neg other]
  | some text =>
    obtain rfl := hop.empty text delim
    simp

theorem wrapAll_ok (self : Zmsg) (hops : List Hop) : ∃ wrapped, wrapAll self hops = .ok wrapped := by
  induction hops generalizing self with
  | nil => exact ⟨self, rfl⟩
  | cons hop hops ih =>
    obtain ⟨wrapped, done⟩ := ih (self ++ hop.delim.toList ++ [hop.address])
    exact ⟨wrapped, by rw [wrapAll, List.foldlM_cons, wrap_eq]; exact done⟩

theorem wrapAll_concat {self wrapped : Zmsg} {hops : List Hop} (done : wrapAll self hops = .ok wrapped) (hop : Hop) :
    wrapAll self (hops ++ [hop]) = .ok (wrapped ++ hop.delim.toList ++ [hop.address]) := by
  rw [wrapAll, List.foldlM_append, ← wrapAll, done]
  rfl

/-- An envelope ends in the name of the last hop. -/
theorem wrapAll_last {self wrapped : Zmsg} {hops : List Hop} (some : hops ≠ []) (done : wrapAll self hops = .ok wrapped) :
    wrapped.getLast? ≠ Option.some [] := by
  obtain ⟨before, hop, rfl⟩ := List.eq_nil_or_concat' hops |>.resolve_left some
  obtain ⟨inner, wrapped'⟩ := wrapAll_ok self before
  rw [wrapAll_concat wrapped'] at done
  cases done
  rw [List.getLast?_concat]
  exact fun same => hop.named (Option.some.inj same)

/-- The innermost hop leaves no delimiter under its address, and there is an empty part in its place. -/
def Ambiguous (self : Zmsg) (hops : List Hop) : Prop :=
  (∃ hop, hops.head? = some hop ∧ hop.delim = none) ∧ self.getLast? = some []

/-- What was wrapped hop by hop is unwrapped to the same addresses, the outermost first, and to the
message itself, exactly when the innermost envelope is not ambiguous. -/
theorem envelopes_nest_iff (self : Zmsg) (hops : List Hop) :
    (∃ wrapped, wrapAll self hops = .ok wrapped ∧
      unwrapAll hops.length wrapped = (hops.reverse.map fun hop => some hop.address, self)) ↔ ¬ Ambiguous self hops := by
  obtain ⟨wrapped, done⟩ := wrapAll_ok self hops
  have only : (∃ wrapped, wrapAll self hops = .ok wrapped ∧
      unwrapAll hops.length wrapped = (hops.reverse.map fun hop => some hop.address, self)) ↔
        unwrapAll hops.length wrapped = (hops.reverse.map fun hop => some hop.address, self) := by
    constructor
    · rintro ⟨other, done', nested⟩
      cases done.symm.trans done'
      exact nested
    · exact fun nested => ⟨wrapped, done, nested⟩
  rw [only]
  clear only
  induction hops using List.reverseRecOn generalizing wrapped with
  | nil =>
    cases done
    refine iff_of_true rfl ?_
    rintro ⟨⟨hop, none, -⟩, -⟩
    cases none
  | append_singleton hops hop ih =>
    obtain ⟨inner, done'⟩ := wrapAll_ok self hops
    cases done.symm.trans (wrapAll_concat done' hop)
    rw [List.length_append, List.length_singleton, unwrapAll, unwrap_wrapped]
    by_cases first : hops = []
    · subst first
      cases done'
      by_cases ambiguous : hop.delim = none ∧ self.getLast? = some []
      · rw [if_pos ambiguous]
        refine iff_of_false ?_ (fun fine => fine ⟨⟨hop, rfl, ambiguous.1⟩, ambiguous.2⟩)
        intro same
        have shorter := congrArg List.length (Prod.mk.inj same).2
        obtain ⟨before, rfl⟩ := List.getLast?_eq_some_iff.mp ambiguous.2
        simp at shorter
      · rw [if_neg ambiguous]
        refine iff_of_true rfl ?_
        rintro ⟨⟨other, same, none⟩, last⟩
        cases same
        exact ambiguous ⟨none, last⟩
    · have named := wrapAll_last first done'
      have head : Ambiguous self (hops ++ [hop]) ↔ Ambiguous self hops := by
        rw [Ambiguous, Ambiguous, List.head?_append_of_ne_nil _ first]
      rw [if_neg fun ambiguous => named ambiguous.2, head]
      refine Iff.trans ?_ (ih inner done')
      simp [Prod.ext_iff]

end ImageServer.Zmsg
