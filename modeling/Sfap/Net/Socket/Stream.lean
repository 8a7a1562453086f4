import Sfap.Net.Socket.Transfer
import Sfap.Utils.String.Impl

/-!
This module contains a connection with a socket at each end: one side sends any number of messages, the other
receives into any number of spans, and each of their requests transfers as much as it happens to.
-/

namespace Sfap

namespace Net

/--
The side that sends with `outgoing` in the memory `source`, the bytes that have been accepted and not been
received yet, and the side that receives into `incoming`, all of it if `exact`.
-/
structure Connection where
  sender : Socket
  source : Heap
  outgoing : ByteSpan
  sending : Transfer
  stream : List Byte
  receiver : Socket
  incoming : ByteSpan
  exact : Bool
  receipt : Receipt

namespace Connection

open Transition
open Transfer (amount Accepts)

inductive Event where
  -- `send_bytes` with what is in memory by then
  | sendBytes (heap : Heap) (data : ByteSpan)
  | sent (answer : Answer)
  | recvBytes (heap : Heap) (data : ByteSpan) (exact : Bool)
  | received (answer : Except ErrorCode Nat)

def establish (sender receiver : Socket) : Connection where
  sender := sender
  source := .empty
  outgoing := ⟨none, 0⟩
  sending := .returned
  stream := []
  receiver := receiver
  incoming := ⟨none, 0⟩
  exact := true
  receipt := ⟨.returned, .empty⟩

def position : Transfer → Nat
  | .awaiting offset => offset.toNat
  | .returned => 0

-- what the caller of `recv_bytes` is given when it returns: the whole span, or what has been received
def delivered (data : ByteSpan) (exact : Bool) (position : Nat) (receipt : Receipt) : List Byte :=
  match receipt.transfer with
  | .awaiting _ => []
  | .returned => if exact then receipt.heap.bytes data else (receipt.heap.bytes data).take position

def step (c : Connection) (event : Event) : Option (Connection × List Byte) :=
  match event with
  | .sendBytes heap data =>
    match c.sending with
    | .awaiting _ => none
    | .returned => some ({ c with source := heap, outgoing := data, sending := .start c.sender data }, [])
  | .sent answer =>
    (c.sender.sendBytes c.outgoing c.sending answer).map fun (t, asked) =>
      ({ c with sending := t, stream := c.stream ++ (c.source.bytes asked.chunk).take (amount answer) }, [])
  | .recvBytes heap data exact =>
    match c.receipt.transfer with
    | .awaiting _ => none
    | .returned =>
      let receipt : Receipt := ⟨.start c.receiver data, heap⟩
      some ({ c with incoming := data, exact := exact, receipt := receipt }, delivered data exact 0 receipt)
  | .received answer =>
    let bytes := answer.map fun n => c.stream.take n
    let n := answer.toOption.getD 0
    (c.receiver.recvBytes c.incoming c.exact c.receipt bytes).map fun (receipt, _) =>
      ({ c with stream := c.stream.drop n, receipt := receipt },
        delivered c.incoming c.exact (position c.receipt.transfer + n) receipt)

def Backed (heap : Heap) (data : ByteSpan) : Prop :=
  match data.data with
  | none => data.size = 0
  | some p => heap.Backs p data.size.toNat

instance (heap : Heap) (data : ByteSpan) : Decidable (Backed heap data) :=
  match h : data.data with
  | none => decidable_of_iff (data.size = 0) (by simp [Backed, h])
  | some p => decidable_of_iff (heap.Backs p data.size.toNat) (by simp [Backed, h])

def room (data : ByteSpan) : Transfer → Nat
  | .awaiting offset => data.size.toNat - offset.toNat
  | .returned => 0

/--
Every request transfers something: no more than it has asked for, and what is received has been sent.
-/
def Healthy (c : Connection) : Event → Prop
  | .sendBytes heap data => Backed heap data
  | .sent answer => 1 ≤ amount answer ∧ amount answer ≤ room c.outgoing c.sending
  | .recvBytes heap data _ => Backed heap data
  | .received answer =>
    1 ≤ answer.toOption.getD 0 ∧ answer.toOption.getD 0 ≤ room c.incoming c.receipt.transfer
      ∧ answer.toOption.getD 0 ≤ c.stream.length

instance (c : Connection) (event : Event) : Decidable (c.Healthy event) :=
  match event with
  | .sendBytes heap data => inferInstanceAs (Decidable (Backed heap data))
  | .sent _ => inferInstanceAs (Decidable (_ ∧ _))
  | .recvBytes heap data _ => inferInstanceAs (Decidable (Backed heap data))
  | .received _ => inferInstanceAs (Decidable (_ ∧ _))

-- all that the calls of `send_bytes` have been given
def written (trace : List (Event × List Byte)) : List Byte :=
  trace.flatMap fun entry =>
    match entry.1 with
    | .sendBytes heap data => heap.bytes data
    | _ => []

-- all that the calls of `recv_bytes` have returned with
def read (trace : List (Event × List Byte)) : List Byte :=
  trace.flatMap fun entry => entry.2

def rest (heap : Heap) (data : ByteSpan) : Transfer → List Byte
  | .awaiting offset => (heap.bytes data).drop offset.toNat
  | .returned => []

def front (heap : Heap) (data : ByteSpan) : Transfer → List Byte
  | .awaiting offset => (heap.bytes data).take offset.toNat
  | .returned => []

def Event.isSent : Event → Bool
  | .sent _ => true
  | _ => false

def Event.isReceived : Event → Bool
  | .received _ => true
  | _ => false

def sends (trace : List (Event × List Byte)) : Nat :=
  trace.countP fun entry => entry.1.isSent

def receives (trace : List (Event × List Byte)) : Nat :=
  trace.countP fun entry => entry.1.isReceived

def unsent (c : Connection) : List Byte :=
  rest c.source c.outgoing c.sending

def arrived (c : Connection) : List Byte :=
  front c.receipt.heap c.incoming c.receipt.transfer

structure Intact (trace : List (Event × List Byte)) (c : Connection) : Prop where
  valid : c.sender.isValid = true ∧ c.receiver.isValid = true
  balance : read trace ++ c.arrived ++ c.stream ++ c.unsent = written trace
  sending : ∀ offset, c.sending = .awaiting offset → offset.toNat < c.outgoing.size.toNat
  receiving : ∀ offset, c.receipt.transfer = .awaiting offset → offset.toNat < c.incoming.size.toNat
  sourced : c.sending ≠ .returned → Backed c.source c.outgoing
  backed : c.receipt.transfer ≠ .returned → Backed c.receipt.heap c.incoming
  sends_le : sends trace ≤ (read trace ++ c.arrived ++ c.stream).length
  receives_le : receives trace ≤ (read trace ++ c.arrived).length

variable {c c' : Connection} {trace : List (Event × List Byte)} {event : Event} {out : List Byte}
  {heap : Heap} {data : ByteSpan} {exact : Bool} {s : Socket} {offset : SizeT} {answer : Answer}

theorem read_snoc (trace : List (Event × List Byte)) (event : Event) (out : List Byte)
    : read (trace ++ [(event, out)]) = read trace ++ out := by
  simp [read]

theorem written_sendBytes (trace : List (Event × List Byte)) (heap : Heap) (data : ByteSpan) (out : List Byte)
    : written (trace ++ [(.sendBytes heap data, out)]) = written trace ++ heap.bytes data := by
  simp [written]

theorem written_other (trace : List (Event × List Byte)) (out : List Byte)
    (hevent : ∀ heap data, event ≠ .sendBytes heap data)
    : written (trace ++ [(event, out)]) = written trace := by
  unfold written
  rw [List.flatMap_append, List.flatMap_singleton]
  split
  . next heap data heq => exact absurd heq (hevent heap data)
  . rw [List.append_nil]

theorem sends_snoc (trace : List (Event × List Byte)) (event : Event) (out : List Byte)
    : sends (trace ++ [(event, out)]) = sends trace + if event.isSent then 1 else 0 := by
  unfold sends
  rw [List.countP_append, List.countP_singleton]

theorem receives_snoc (trace : List (Event × List Byte)) (event : Event) (out : List Byte)
    : receives (trace ++ [(event, out)]) = receives trace + if event.isReceived then 1 else 0 := by
  unfold receives
  rw [List.countP_append, List.countP_singleton]

theorem start_cases (hvalid : s.isValid = true) (data : ByteSpan)
    : (data.size.toNat = 0 ∧ Transfer.start s data = .returned)
        ∨
      (0 < data.size.toNat ∧ Transfer.start s data = .awaiting 0) := by
  unfold Transfer.start Transfer.loop
  rw [hvalid]
  by_cases hsize : data.size = 0
  . left
    rw [hsize]
    exact ⟨rfl, by simp⟩
  . have hne := mt (Word.eq_zero_iff_toNat data.size).mpr hsize
    have hpos : 0 < data.size := by
      rw [UInt64.lt_iff_toNat_lt]
      exact Nat.pos_of_ne_zero hne
    right
    refine ⟨Nat.pos_of_ne_zero hne, ?_⟩
    rw [if_neg (by simp [hsize]), if_pos hpos]

theorem bytes_of_empty (heap : Heap) (h : data.size.toNat = 0) : heap.bytes data = [] := by
  have hle := Heap.length_bytes_le heap data
  rw [h] at hle
  apply List.eq_nil_of_length_eq_zero (Nat.le_zero.mp hle)

theorem length_bytes (h : Backed heap data) : (heap.bytes data).length = data.size.toNat := by
  unfold Backed at h
  unfold Heap.bytes
  cases hp : data.data with
  | none =>
    rw [hp] at h
    dsimp only at h
    rw [h]
    rfl
  | some p =>
    rw [hp] at h
    exact h.length_load

theorem rest_start (hvalid : s.isValid = true) (heap : Heap) (data : ByteSpan)
    : rest heap data (.start s data) = heap.bytes data := by
  rcases start_cases hvalid data with ⟨hempty, hstart⟩ | ⟨_, hstart⟩
  . rw [hstart, bytes_of_empty heap hempty]
    rfl
  . rw [hstart]
    rfl

theorem front_start (hvalid : s.isValid = true) (heap : Heap) (data : ByteSpan) (exact : Bool)
    : delivered data exact 0 ⟨.start s data, heap⟩ = [] ∧ front heap data (.start s data) = [] := by
  unfold delivered
  rcases start_cases hvalid data with ⟨hempty, hstart⟩ | ⟨_, hstart⟩
  . rw [hstart, bytes_of_empty heap hempty]
    exact ⟨ite_self [], rfl⟩
  . rw [hstart]
    exact ⟨rfl, rfl⟩

theorem offset_start (hvalid : s.isValid = true) (h : Transfer.start s data = .awaiting offset)
    : offset.toNat < data.size.toNat := by
  rcases start_cases hvalid data with ⟨_, hstart⟩ | ⟨hpos, hstart⟩
  . rw [hstart] at h
    simp at h
  . rw [hstart, Transfer.awaiting.injEq] at h
    rw [← h]
    exact hpos

inductive Resumes (data : ByteSpan) (exact : Bool) (position : Nat) : Transfer → Prop where
  | awaiting {offset : SizeT} :
      offset.toNat = position → position < data.size.toNat → Resumes data exact position (.awaiting offset)
  | returned : (exact = true → position = data.size.toNat) → Resumes data exact position .returned

theorem resumes (exact : Bool) (hpos : 1 ≤ amount answer)
    (hroom : amount answer ≤ room data (.awaiting offset)) (hlt : offset.toNat < data.size.toNat)
    : Resumes data exact (offset.toNat + amount answer) (Transfer.resume data exact offset answer) := by
  have hroom : amount answer ≤ data.size.toNat - offset.toNat := hroom
  have hsum : (offset + .ofNat (amount answer)).toNat = offset.toNat + amount answer := by
    have := UInt64.toNat_lt data.size
    rw [Word.toNat_add_ofNat]
    omega
  rcases Transfer.resume_cases data exact offset answer with ⟨hfail, _⟩ | ⟨_, hfalse, hres⟩ | ⟨_, _, hres⟩
  . have hzero : amount answer = 0 := by
      by_contra hne
      exact hfail hne
    omega
  . rw [hres]
    apply Resumes.returned
    simp [hfalse]
  . rw [hres]
    cases hloop : Transfer.loop data (offset + .ofNat (amount answer)) with
    | awaiting offset' =>
      rcases Transfer.loop_eq_awaiting hloop with ⟨rfl, hlt'⟩
      rw [hsum] at hlt'
      exact .awaiting hsum hlt'
    | returned =>
      have hge := Transfer.loop_eq_returned hloop
      apply Resumes.returned
      intro _
      omega

section Resumes

variable {position : Nat} {t : Transfer}

theorem Resumes.offset_lt (h : Resumes data exact position t) (ht : t = .awaiting offset)
    : offset.toNat < data.size.toNat := by
  cases h with
  | awaiting heq hlt =>
    cases ht
    rw [heq]
    exact hlt
  | returned _ => simp at ht

theorem Resumes.rest_eq (h : Resumes data true position t) (heap : Heap)
    : rest heap data t = (heap.bytes data).drop position := by
  cases h with
  | awaiting heq _ =>
    rw [← heq]
    rfl
  | returned heq =>
    rw [heq rfl, List.drop_of_length_le (Heap.length_bytes_le heap data)]
    rfl

theorem Resumes.front_eq (h : Resumes data exact position t) (heap : Heap)
    : delivered data exact position ⟨t, heap⟩ ++ front heap data t = (heap.bytes data).take position := by
  cases h with
  | awaiting heq _ =>
    rw [← heq]
    rfl
  | returned heq =>
    unfold delivered front
    dsimp only
    rw [List.append_nil]
    split
    . next hexact => rw [heq hexact, List.take_of_length_le (Heap.length_bytes_le heap data)]
    . rfl

end Resumes

theorem Intact.sendBytes (h : Intact trace c) (hbacked : Backed heap data)
    (hstep : c.step (.sendBytes heap data) = some (c', out))
    : Intact (trace ++ [(.sendBytes heap data, out)]) c' := by
  unfold step at hstep
  dsimp only at hstep
  split at hstep
  . simp at hstep
  . next hsending =>
    cases hstep
    have hbalance := h.balance
    unfold unsent at hbalance
    rw [hsending] at hbalance
    constructor
    . exact h.valid
    . rw [read_snoc, written_sendBytes, ← hbalance]
      unfold unsent
      dsimp only
      rw [rest_start h.valid.1, List.append_nil]
      unfold rest
      rw [List.append_nil]
      rfl
    . intro offset hoffset
      apply offset_start h.valid.1 hoffset
    . exact h.receiving
    . intro _
      exact hbacked
    . exact h.backed
    . rw [sends_snoc, read_snoc, List.append_nil]
      exact h.sends_le
    . rw [receives_snoc, read_snoc, List.append_nil]
      exact h.receives_le

theorem Intact.sent (h : Intact trace c) (hhealthy : c.Healthy (.sent answer))
    (hstep : c.step (.sent answer) = some (c', out))
    : Intact (trace ++ [(.sent answer, out)]) c' := by
  unfold step Socket.sendBytes Transfer.step at hstep
  dsimp only at hstep
  cases hsending : c.sending with
  | returned =>
    rw [hsending] at hstep
    simp at hstep
  | awaiting offset =>
    rw [hsending] at hstep
    cases hstep
    rcases hhealthy with ⟨hpos, hroom⟩
    rw [hsending] at hroom
    have hlt := h.sending offset hsending
    have hresumes := resumes true hpos hroom hlt
    have hroom : amount answer ≤ c.outgoing.size.toNat - offset.toNat := hroom
    have hsourced := h.sourced (by rw [hsending]; simp)
    have hchunk : ((c.source.bytes (c.outgoing.subspan offset)).take (amount answer)).length
        = amount answer := by
      rw [Transfer.bytes_subspan _ _ (Nat.le_of_lt hlt), List.length_take, List.length_drop,
        length_bytes hsourced]
      omega
    have hbalance := h.balance
    unfold unsent at hbalance
    rw [hsending] at hbalance
    have hrest : rest c.source c.outgoing (.awaiting offset)
        = (c.source.bytes (c.outgoing.subspan offset)).take (amount answer)
          ++ rest c.source c.outgoing (Transfer.resume c.outgoing true offset answer) := by
      rw [hresumes.rest_eq, Transfer.bytes_subspan _ _ (Nat.le_of_lt hlt), ← List.drop_drop,
        List.take_append_drop]
      rfl
    constructor
    . exact h.valid
    . rw [read_snoc, written_other _ _ (by simp), ← hbalance, hrest, List.append_nil]
      unfold unsent
      simp only [List.append_assoc]
      rfl
    . intro offset' hoffset'
      apply hresumes.offset_lt hoffset'
    . exact h.receiving
    . intro _
      exact hsourced
    . exact h.backed
    . rw [sends_snoc, read_snoc, List.append_nil]
      calc
        sends trace + 1 ≤ (read trace ++ c.arrived ++ c.stream).length + amount answer :=
          Nat.add_le_add h.sends_le hpos
        _ = (read trace ++ c.arrived ++ (c.stream ++ _)).length := by
          dsimp only
          simp only [List.length_append, hchunk]
          omega
    . rw [receives_snoc, read_snoc, List.append_nil]
      exact h.receives_le

theorem Intact.recvBytes (h : Intact trace c) (hbacked : Backed heap data)
    (hstep : c.step (.recvBytes heap data exact) = some (c', out))
    : Intact (trace ++ [(.recvBytes heap data exact, out)]) c' := by
  unfold step at hstep
  dsimp only at hstep
  split at hstep
  . simp at hstep
  . next hreturned =>
    cases hstep
    rcases front_start h.valid.2 heap data exact with ⟨hdelivered, hfront⟩
    let receipt : Receipt := ⟨.start c.receiver data, heap⟩
    have hflow : read (trace ++ [(.recvBytes heap data exact, delivered data exact 0 receipt)])
          ++ arrived { c with incoming := data, exact := exact, receipt := receipt }
        = read trace ++ c.arrived := by
      unfold arrived
      rw [read_snoc, hreturned, hdelivered, List.append_nil]
      dsimp only
      rw [hfront]
      rfl
    constructor
    . exact h.valid
    . rw [written_other _ _ (by simp), ← h.balance, hflow]
      rfl
    . exact h.sending
    . intro offset hoffset
      apply offset_start h.valid.2 hoffset
    . exact h.sourced
    . intro _
      exact hbacked
    . rw [sends_snoc, hflow]
      exact h.sends_le
    . rw [receives_snoc, hflow]
      exact h.receives_le

theorem take_fill {bytes : List Byte} (hbacked : Backed heap data) (hlt : offset.toNat < data.size.toNat)
    (hroom : bytes.length ≤ room data (.awaiting offset))
    : ((heap.fill (data.subspan offset) (.ok bytes)).bytes data).take (offset.toNat + bytes.length)
          = (heap.bytes data).take offset.toNat ++ bytes
        ∧ Backed (heap.fill (data.subspan offset) (.ok bytes)) data := by
  have hroom : bytes.length ≤ data.size.toNat - offset.toNat := hroom
  unfold Backed at hbacked ⊢
  unfold Heap.fill ByteSpan.subspan Heap.bytes
  cases hp : data.data with
  | none =>
    rw [hp] at hbacked
    dsimp only at hbacked
    rw [hbacked] at hlt
    simp at hlt
  | some p =>
    rw [hp] at hbacked
    dsimp only [Option.map_some] at hbacked ⊢
    have hle : offset.toNat + bytes.length ≤ data.size.toNat := by omega
    rw [Memory.take_load hle, Memory.load_store_end hbacked hle, Memory.take_load (Nat.le_of_lt hlt)]
    exact ⟨rfl, hbacked.store hle⟩

theorem Intact.received (h : Intact trace c) {n : Nat} (hhealthy : c.Healthy (.received (.ok n)))
    (hstep : c.step (.received (.ok n)) = some (c', out))
    : Intact (trace ++ [(.received (.ok n), out)]) c' := by
  have hhealthy : 1 ≤ n ∧ n ≤ room c.incoming c.receipt.transfer ∧ n ≤ c.stream.length := hhealthy
  rcases hhealthy with ⟨hpos, hroom, hlength⟩
  unfold step Socket.recvBytes Transfer.step at hstep
  dsimp only [Except.map] at hstep
  cases hreceiving : c.receipt.transfer with
  | returned =>
    rw [hreceiving] at hstep
    simp at hstep
  | awaiting offset =>
    rw [hreceiving] at hstep hroom
    let receipt : Receipt :=
      ⟨Transfer.resume c.incoming c.exact offset (.ok (.ofNat (c.stream.take n).length)),
        c.receipt.heap.fill (c.incoming.subspan offset) (.ok (c.stream.take n))⟩
    have hstep : some ({ c with stream := c.stream.drop n, receipt := receipt },
        delivered c.incoming c.exact (offset.toNat + n) receipt) = some (c', out) := hstep
    cases hstep
    have hlt := h.receiving offset hreceiving
    have htake : (c.stream.take n).length = n := by
      rw [List.length_take]
      omega
    have hamount : amount (.ok (.ofNat (c.stream.take n).length)) = n := by
      have := UInt64.toNat_lt c.incoming.size
      have hle : n ≤ c.incoming.size.toNat - offset.toNat := hroom
      rw [htake]
      apply UInt64.toNat_ofNat_of_lt'
      unfold UInt64.size
      omega
    rw [← htake] at hroom
    rcases take_fill (h.backed (by rw [hreceiving]; simp)) hlt hroom with ⟨hfill, hbacked⟩
    rw [htake] at hroom hfill
    have hresumes : Resumes c.incoming c.exact
        (offset.toNat + amount (.ok (.ofNat (c.stream.take n).length)))
        (Transfer.resume c.incoming c.exact offset (.ok (.ofNat (c.stream.take n).length))) := by
      apply resumes
      . rw [hamount]
        exact hpos
      . rw [hamount]
        exact hroom
      . exact hlt
    rw [hamount] at hresumes
    have hfront := hresumes.front_eq receipt.heap
    rw [hfill] at hfront
    have hflow : read (trace ++ [(.received (.ok n), delivered c.incoming c.exact (offset.toNat + n) receipt)])
          ++ arrived { c with stream := c.stream.drop n, receipt := receipt }
        = read trace ++ c.arrived ++ c.stream.take n := by
      unfold arrived
      rw [read_snoc, hreceiving, List.append_assoc]
      dsimp only
      rw [hfront, ← List.append_assoc]
      rfl
    have hsplit : read trace ++ c.arrived ++ c.stream.take n ++ c.stream.drop n
        = read trace ++ c.arrived ++ c.stream := by
      rw [List.append_assoc, List.take_append_drop]
    constructor
    . exact h.valid
    . rw [written_other _ _ (by simp), ← h.balance, hflow, hsplit]
      rfl
    . exact h.sending
    . intro offset' hoffset'
      apply hresumes.offset_lt hoffset'
    . exact h.sourced
    . intro _
      exact hbacked
    . rw [sends_snoc, hflow, hsplit]
      exact h.sends_le
    . rw [receives_snoc, hflow]
      calc
        receives trace + 1 ≤ (read trace ++ c.arrived).length + n := Nat.add_le_add h.receives_le hpos
        _ = (read trace ++ c.arrived ++ c.stream.take n).length := by
          simp only [List.length_append, htake]

theorem Intact.step (h : Intact trace c) (hhealthy : c.Healthy event) (hstep : c.step event = some (c', out))
    : Intact (trace ++ [(event, out)]) c' := by
  cases event with
  | sendBytes heap data => exact h.sendBytes hhealthy hstep
  | sent answer => exact h.sent hhealthy hstep
  | recvBytes heap data exact => exact h.recvBytes hhealthy hstep
  | received answer =>
    cases answer with
    | ok n => exact h.received hhealthy hstep
    | error e =>
      have hpos : 1 ≤ 0 := hhealthy.1
      simp at hpos

theorem Intact.establish {sender receiver : Socket} (hsender : sender.isValid = true)
    (hreceiver : receiver.isValid = true)
    : Intact [] (establish sender receiver) := by
  constructor
  . exact ⟨hsender, hreceiver⟩
  . rfl
  . intro offset h
    simp [Connection.establish] at h
  . intro offset h
    simp [Connection.establish] at h
  . intro h
    exact absurd rfl h
  . intro h
    exact absurd rfl h
  . exact Nat.le_refl _
  . exact Nat.le_refl _

theorem Intact.enabled_sent (h : Intact trace c) (hsending : c.sending ≠ .returned)
    : c.Healthy (.sent (.ok 1)) ∧ (c.step (.sent (.ok 1))).isSome = true := by
  cases hs : c.sending with
  | returned => exact absurd hs hsending
  | awaiting offset =>
    have hlt := h.sending offset hs
    unfold Healthy room Connection.step Socket.sendBytes Transfer.step
    rw [hs]
    refine ⟨⟨Nat.le_refl 1, ?_⟩, rfl⟩
    have : amount (.ok 1) = 1 := rfl
    dsimp only
    omega

theorem Intact.enabled_received (h : Intact trace c) (hreceiving : c.receipt.transfer ≠ .returned)
    (hstream : c.stream ≠ [])
    : c.Healthy (.received (.ok 1)) ∧ (c.step (.received (.ok 1))).isSome = true := by
  cases hr : c.receipt.transfer with
  | returned => exact absurd hr hreceiving
  | awaiting offset =>
    have hlt := h.receiving offset hr
    unfold Healthy room Connection.step Socket.recvBytes Transfer.step
    rw [hr]
    refine ⟨⟨Nat.le_refl 1, ?_, List.length_pos_iff.mpr hstream⟩, rfl⟩
    have : (Except.ok 1 : Except ErrorCode Nat).toOption.getD 0 = 1 := rfl
    dsimp only
    omega

theorem run_intact {sender receiver : Socket} (hsender : sender.isValid = true)
    (hreceiver : receiver.isValid = true)
    (hrun : Run (restrict Healthy (ofStep step)) (establish sender receiver) trace c)
    : Intact trace c := by
  induction hrun with
  | nil => exact .establish hsender hreceiver
  | snoc _ hlast ih => exact ih.step hlast.1 hlast.2

/--
What has been read is what has been written, in order and up to what is still on its way, wherever the
messages and the spans begin and end and however the requests cut them. Each request takes at least one byte
further, and neither side waits in vain as long as it has something to transfer.
-/
theorem stream_intact {sender receiver : Socket} (hsender : sender.isValid = true)
    (hreceiver : receiver.isValid = true)
    (hrun : Run (restrict Healthy (ofStep step)) (establish sender receiver) trace c)
    : read trace ++ c.arrived ++ c.stream ++ c.unsent = written trace
        ∧ (c.sending = .returned → c.receipt.transfer = .returned → read trace ++ c.stream = written trace)
        ∧ sends trace ≤ (written trace).length ∧ receives trace ≤ (written trace).length
        ∧ (c.sending ≠ .returned →
            c.Healthy (.sent (.ok 1)) ∧ (c.step (.sent (.ok 1))).isSome = true)
        ∧ (c.receipt.transfer ≠ .returned → c.stream ≠ [] →
            c.Healthy (.received (.ok 1)) ∧ (c.step (.received (.ok 1))).isSome = true) := by
  have h := run_intact hsender hreceiver hrun
  have hbalance := h.balance
  refine ⟨hbalance, ?_, ?_, ?_, h.enabled_sent, h.enabled_received⟩
  . intro hsending hreceiving
    unfold arrived unsent at hbalance
    rw [hsending, hreceiving] at hbalance
    unfold front rest at hbalance
    rw [List.append_nil, List.append_nil] at hbalance
    exact hbalance
  . rw [← hbalance, List.length_append]
    exact Nat.le_trans h.sends_le (Nat.le_add_right _ _)
  . rw [← hbalance, List.append_assoc, List.length_append]
    exact Nat.le_trans h.receives_le (Nat.le_add_right _ _)

-- two messages, cut in three by their requests, are received into one span that they fill and into another
theorem stream_intact_of_two_messages
    : let run := restrict Healthy (ofStep step)
      ∃ trace c, Run run (establish ⟨some 0, 1⟩ ⟨some 0, 2⟩) trace c
        ∧ sends trace = 3 ∧ receives trace = 4 ∧ written trace = [7, 8, 9, 4, 5, 6]
        ∧ read trace ++ c.stream = [7, 8, 9, 4, 5, 6] ∧ c.stream = [6] := by
  let heap₁ : Heap := ((Memory.empty : Heap).alloc [7, 8, 9]).2
  let heap₂ : Heap := ((Memory.empty : Heap).alloc [4, 5, 6]).2
  let heap₃ : Heap := ((Memory.empty : Heap).alloc [0, 0, 0, 0]).2
  let events : List Event :=
    [.sendBytes heap₁ ⟨some ⟨0, 0⟩, 3⟩, .sent (.ok 2), .recvBytes heap₃ ⟨some ⟨0, 0⟩, 4⟩ true,
      .received (.ok 1), .sent (.ok 1), .sendBytes heap₂ ⟨some ⟨0, 0⟩, 3⟩, .received (.ok 2), .sent (.ok 3),
      .received (.ok 1), .recvBytes heap₃ ⟨some ⟨0, 0⟩, 4⟩ false, .received (.ok 1)]
  have hexec : (exec (guarded Healthy step) (establish ⟨some 0, 1⟩ ⟨some 0, 2⟩) events).map
      (fun r => ((r.1.sending, r.1.receipt.transfer, r.1.stream),
        (sends (events.zip r.2), receives (events.zip r.2), written (events.zip r.2))))
        = some ((.returned, .returned, [6]), (3, 4, [7, 8, 9, 4, 5, 6])) := by decide
  rcases Option.map_eq_some_iff.mp hexec with ⟨⟨c, outs⟩, hexec, heq⟩
  simp only [Prod.mk.injEq] at heq
  rcases heq with ⟨⟨hsending, hreceiving, hstream⟩, hsends, hreceives, hwritten⟩
  have hrun := run_restrict_of_exec hexec
  have hsender : (⟨some 0, 1⟩ : Socket).isValid = true := rfl
  have hreceiver : (⟨some 0, 2⟩ : Socket).isValid = true := rfl
  refine ⟨_, c, hrun, hsends, hreceives, hwritten, ?_, hstream⟩
  rw [(stream_intact hsender hreceiver hrun).2.1 hsending hreceiving]
  exact hwritten

end Connection

end Net

end Sfap
