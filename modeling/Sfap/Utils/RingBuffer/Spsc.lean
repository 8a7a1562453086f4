import Sfap.Lib.Transition
import Sfap.Utils.RingBuffer.Queue

/-!
This module contains one producer and one consumer that share a ring buffer. Every load and store of
`head_` and `tail_` and every access to a stored byte is a step of its own, and the steps of the two
sides interleave in any order.
-/

namespace Sfap

namespace RingBuffer

inductive ProducerPc where
  | idle
  | putTail (c : Byte)
  | putHead (c : Byte) (t : SizeT)
  | putByte (c : Byte) (h : SizeT)
  | putStore (c : Byte) (h : SizeT)
  | prepareTail (n : SizeT)
  | prepareHead (n t : SizeT)
  | holding (view : View)
  | commitHead (can : SizeT)
  | commitStore (can newH : SizeT)

inductive ConsumerPc where
  | idle
  | popHead
  | popTail (h : SizeT)
  | popByte (t : SizeT)
  | popStore (t : SizeT) (c : Byte)
  | prepareHead (n : SizeT)
  | prepareTail (n h : SizeT)
  | holding (view : View)
  | commitTail (view : View) (can : SizeT)
  | commitStore (view : View) (can newT : SizeT)

inductive Act where
  | put (c : Byte)
  | prepareWrite (n : SizeT)
  | writeView (i : Nat) (c : Byte)
  | commitWrite (k : SizeT)
  | produce
  | pop
  | prepareRead (n : SizeT)
  | readView (i : Nat)
  | commitRead (k : SizeT)
  | consume

inductive Party where
  | producer
  | consumer
  deriving DecidableEq, Repr

def Act.party : Act → Party
  | .put _ => .producer
  | .prepareWrite _ => .producer
  | .writeView _ _ => .producer
  | .commitWrite _ => .producer
  | .produce => .producer
  | .pop => .consumer
  | .prepareRead _ => .consumer
  | .readView _ => .consumer
  | .commitRead _ => .consumer
  | .consume => .consumer

inductive Access where
  | none
  | wrote (slot : Nat)
  | read (pos : Nat) (c : Byte)
  deriving DecidableEq

structure Spsc where
  rb : RingBuffer
  producer : ProducerPc
  consumer : ConsumerPc
  draft : List Byte
  published : List Byte
  consumed : List Byte

namespace Spsc

def fresh (rb : RingBuffer) : Spsc := ⟨rb, .idle, .idle, [], [], []⟩

def produce (s : Spsc) : Option (Spsc × Access) :=
  match s.producer with
  | .idle => none
  | .holding _ => none
  | .putTail c => some ({ s with producer := .putHead c s.rb.tail }, .none)
  | .putHead c t =>
    let h := s.rb.head
    if s.rb.capacity - (h - t) == 0 then
      some ({ s with producer := .idle }, .none)
    else
      some ({ s with producer := .putByte c h }, .none)
  | .putByte c h =>
    let slot := (h &&& s.rb.mask).toNat
    some ({ s with rb := s.rb.storeByte slot c, producer := .putStore c h }, .wrote slot)
  | .putStore c h =>
    some ({
      s with
      rb := { s.rb with head := h + 1 }
      producer := .idle
      published := s.published ++ [c]
    }, .none)
  | .prepareTail n => some ({ s with producer := .prepareHead n s.rb.tail }, .none)
  | .prepareHead n t =>
    let (view, rb) := s.rb.prepareWriteAt t s.rb.head n
    some ({
      s with
      rb := rb
      producer := .holding view
      draft := Circular.read s.rb.bytes view.slots
    }, .none)
  | .commitHead can =>
    let h := s.rb.head
    some ({ s with producer := .commitStore can (can + h) }, .none)
  | .commitStore can newH =>
    some ({
      s with
      rb := { s.rb with head := newH, pendingW := s.rb.pendingW - can }
      producer := .idle
      published := s.published ++ s.draft.take can.toNat
    }, .none)

def consume (s : Spsc) : Option (Spsc × Access) :=
  match s.consumer with
  | .idle => none
  | .holding _ => none
  | .popHead => some ({ s with consumer := .popTail s.rb.head }, .none)
  | .popTail h =>
    let t := s.rb.tail
    if h - t == 0 then
      some ({ s with consumer := .idle }, .none)
    else
      some ({ s with consumer := .popByte t }, .none)
  | .popByte t =>
    let c := s.rb.loadByte (t &&& s.rb.mask).toNat
    some ({ s with consumer := .popStore t c }, .read s.consumed.length c)
  | .popStore t c =>
    some ({
      s with
      rb := { s.rb with tail := t + 1 }
      consumer := .idle
      consumed := s.consumed ++ [c]
    }, .none)
  | .prepareHead n => some ({ s with consumer := .prepareTail n s.rb.head }, .none)
  | .prepareTail n h =>
    let (view, rb) := s.rb.prepareReadAt h s.rb.tail n
    some ({ s with rb := rb, consumer := .holding view }, .none)
  | .commitTail view can =>
    let t := s.rb.tail
    some ({ s with consumer := .commitStore view can (t + can) }, .none)
  | .commitStore view can newT =>
    some ({
      s with
      rb := { s.rb with tail := newT, pendingR := s.rb.pendingR - can }
      consumer := .idle
      consumed := s.consumed ++ Circular.read s.rb.bytes (view.slots.take can.toNat)
    }, .none)

def step (s : Spsc) (act : Act) : Option (Spsc × Access) :=
  match act with
  | .put c =>
    match s.producer with
    | .idle =>
      if !s.rb.isValid then
        some (s, .none)
      else
        some ({ s with producer := .putTail c }, .none)
    | _ => none
  | .prepareWrite n =>
    match s.producer with
    | .idle =>
      if !s.rb.isValid || n == 0 then
        some ({ s with producer := .holding .empty, draft := [] }, .none)
      else
        some ({ s with producer := .prepareTail n }, .none)
    | _ => none
  | .writeView i c =>
    match s.producer with
    | .holding view =>
      if h : i < view.slots.length then
        some ({ s with rb := s.rb.storeByte view.slots[i] c, draft := s.draft.set i c },
          .wrote view.slots[i])
      else
        none
    | _ => none
  | .commitWrite k =>
    match s.producer with
    | .holding view =>
      -- the documented precondition
      if k ≤ view.size then
        let can := min k s.rb.pendingW
        if k == 0 || can == 0 then
          some ({ s with producer := .idle }, .none)
        else
          some ({ s with producer := .commitHead can }, .none)
      else
        none
    | _ => none
  | .produce => s.produce
  | .pop =>
    match s.consumer with
    | .idle =>
      if !s.rb.isValid then
        some (s, .none)
      else
        some ({ s with consumer := .popHead }, .none)
    | _ => none
  | .prepareRead n =>
    match s.consumer with
    | .idle =>
      if !s.rb.isValid || n == 0 then
        some ({ s with consumer := .holding .empty }, .none)
      else
        some ({ s with consumer := .prepareHead n }, .none)
    | _ => none
  | .readView i =>
    match s.consumer with
    | .holding view =>
      if h : i < view.slots.length then
        some (s, .read (s.consumed.length + i) (s.rb.loadByte view.slots[i]))
      else
        none
    | _ => none
  | .commitRead k =>
    match s.consumer with
    | .holding view =>
      if k ≤ view.size then
        let can := min k s.rb.pendingR
        if k == 0 || can == 0 then
          some ({ s with consumer := .idle }, .none)
        else
          some ({ s with consumer := .commitTail view can }, .none)
      else
        none
    | _ => none
  | .consume => s.consume

def finish (next : Spsc → Option (Spsc × Access)) (s : Spsc) : Nat → Spsc
  | 0 => s
  | fuel + 1 =>
    match next s with
    | none => s
    | some (s', _) => finish next s' fuel

variable {s s' : Spsc} {a : Access}

theorem put_alone {c : Byte} (h : s.step (.put c) = some (s', a))
    : (s'.finish produce 4).rb = (s.rb.put c).2 ∧ (s'.finish produce 4).producer = .idle := by
  simp only [step] at h
  split at h
  . next hidle =>
    unfold RingBuffer.put
    split at h
    . next hnull =>
      simp only [Option.some.injEq, Prod.mk.injEq] at h
      rcases h with ⟨rfl, _⟩
      simp [finish, produce, hidle, hnull]
    . next hvalid =>
      simp only [Option.some.injEq, Prod.mk.injEq] at h
      rcases h with ⟨rfl, _⟩
      simp only [hvalid, Bool.false_eq_true, ↓reduceIte]
      by_cases hfull : (s.rb.capacity - (s.rb.head - s.rb.tail) == 0) = true
      . simp [finish, produce, hfull]
      . simp [finish, produce, hfull, storeByte]
  . simp at h

theorem prepareWrite_alone {n : SizeT} (h : s.step (.prepareWrite n) = some (s', a))
    : (s'.finish produce 2).rb = (s.rb.prepareWrite n).2
        ∧ (s'.finish produce 2).producer = .holding (s.rb.prepareWrite n).1 := by
  simp only [step] at h
  split at h
  . unfold RingBuffer.prepareWrite
    split at h
    . next hempty =>
      simp only [Option.some.injEq, Prod.mk.injEq] at h
      rcases h with ⟨rfl, _⟩
      simp [finish, produce, hempty]
    . next hsome =>
      simp only [Option.some.injEq, Prod.mk.injEq] at h
      rcases h with ⟨rfl, _⟩
      simp [finish, produce, hsome]
  . simp at h

theorem commitWrite_alone {k : SizeT} (h : s.step (.commitWrite k) = some (s', a))
    : (s'.finish produce 2).rb = (s.rb.commitWrite k).2
        ∧ (s'.finish produce 2).producer = .idle := by
  simp only [step] at h
  split at h
  . split at h
    . unfold RingBuffer.commitWrite
      by_cases hk : (k == 0) = true
      . simp only [hk, Bool.true_or, ↓reduceIte, Option.some.injEq, Prod.mk.injEq] at h
        rcases h with ⟨rfl, _⟩
        simp [finish, produce, hk]
      . by_cases hcan : (min k s.rb.pendingW == 0) = true
        . simp only [hk, hcan, Bool.or_true, ↓reduceIte, Option.some.injEq, Prod.mk.injEq] at h
          rcases h with ⟨rfl, _⟩
          simp [finish, produce, hk, hcan]
        . simp only [hk, hcan, Bool.or_self, ↓reduceIte, Option.some.injEq, Prod.mk.injEq,
            Bool.false_eq_true] at h
          rcases h with ⟨rfl, _⟩
          simp [finish, produce, hk, hcan]
    . simp at h
  . simp at h

theorem pop_alone (h : s.step .pop = some (s', a))
    : (s'.finish consume 4).rb = s.rb.pop.2 ∧ (s'.finish consume 4).consumer = .idle := by
  simp only [step] at h
  split at h
  . next hidle =>
    unfold RingBuffer.pop
    split at h
    . next hnull =>
      simp only [Option.some.injEq, Prod.mk.injEq] at h
      rcases h with ⟨rfl, _⟩
      simp [finish, consume, hidle, hnull]
    . next hvalid =>
      simp only [Option.some.injEq, Prod.mk.injEq] at h
      rcases h with ⟨rfl, _⟩
      simp only [hvalid, Bool.false_eq_true, ↓reduceIte]
      by_cases hempty : (s.rb.head - s.rb.tail == 0) = true
      . simp [finish, consume, hempty]
      . simp [finish, consume, hempty]
  . simp at h

theorem prepareRead_alone {n : SizeT} (h : s.step (.prepareRead n) = some (s', a))
    : (s'.finish consume 2).rb = (s.rb.prepareRead n).2
        ∧ (s'.finish consume 2).consumer = .holding (s.rb.prepareRead n).1 := by
  simp only [step] at h
  split at h
  . unfold RingBuffer.prepareRead
    split at h
    . next hempty =>
      simp only [Option.some.injEq, Prod.mk.injEq] at h
      rcases h with ⟨rfl, _⟩
      simp [finish, consume, hempty]
    . next hsome =>
      simp only [Option.some.injEq, Prod.mk.injEq] at h
      rcases h with ⟨rfl, _⟩
      simp [finish, consume, hsome]
  . simp at h

theorem commitRead_alone {k : SizeT} (h : s.step (.commitRead k) = some (s', a))
    : (s'.finish consume 2).rb = (s.rb.commitRead k).2
        ∧ (s'.finish consume 2).consumer = .idle := by
  simp only [step] at h
  split at h
  . split at h
    . unfold RingBuffer.commitRead
      by_cases hk : (k == 0) = true
      . simp only [hk, Bool.true_or, ↓reduceIte, Option.some.injEq, Prod.mk.injEq] at h
        rcases h with ⟨rfl, _⟩
        simp [finish, consume, hk]
      . by_cases hcan : (min k s.rb.pendingR == 0) = true
        . simp only [hk, hcan, Bool.or_true, ↓reduceIte, Option.some.injEq, Prod.mk.injEq] at h
          rcases h with ⟨rfl, _⟩
          simp [finish, consume, hk, hcan]
        . simp only [hk, hcan, Bool.or_self, ↓reduceIte, Option.some.injEq, Prod.mk.injEq,
            Bool.false_eq_true] at h
          rcases h with ⟨rfl, _⟩
          simp [finish, consume, hk, hcan]
    . simp at h
  . simp at h

end Spsc

def ConsumerPc.held : ConsumerPc → List Nat
  | .holding view => view.slots
  | .commitTail view _ => view.slots
  | .commitStore view _ _ => view.slots
  | _ => []

end RingBuffer

end Sfap
