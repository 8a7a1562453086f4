import Sfap.Lib.Linearizability
import Sfap.Utils.RingBuffer.Exclusivity

/-!
This module contains the calls and replies of the two sides of a shared ring buffer, and the proof that all
their histories are linearizable with respect to the bounded byte queue.
-/

namespace Sfap

namespace RingBuffer

open Linearizability (Event Status Moves Linearizable)

abbrev HistoryEvent := Event Party Op Out

def Act.called : Act → Option Op
  | .put c => some (.put c)
  | .prepareWrite n => some (.prepareWrite n)
  | .writeView i c => some (.writeView i c)
  | .commitWrite k => some (.commitWrite k)
  | .produce => none
  | .pop => some .pop
  | .prepareRead n => some (.prepareRead n)
  | .readView i => some (.readView i)
  | .commitRead k => some (.commitRead k)
  | .consume => none

namespace Spsc

def replied (s : Spsc) : Act → Option Out
  | .put _ => if !s.rb.isValid then some (.flag false) else none
  | .prepareWrite n => if !s.rb.isValid || n == 0 then some (.count View.empty.size.toNat) else none
  | .writeView _ _ => some .done
  | .commitWrite k =>
    let can := min k s.rb.pendingW
    if k == 0 || can == 0 then some (.count 0) else none
  | .produce =>
    match s.producer with
    | .putHead _ t => if s.rb.capacity - (s.rb.head - t) == 0 then some (.flag false) else none
    | .putStore _ _ => some (.flag true)
    | .prepareHead n t => some (.count (s.rb.prepareWriteAt t s.rb.head n).1.size.toNat)
    | .commitStore can _ => some (.count can.toNat)
    | _ => none
  | .pop => if !s.rb.isValid then some (.byte none) else none
  | .prepareRead n => if !s.rb.isValid || n == 0 then some (.count View.empty.size.toNat) else none
  | .readView i =>
    match s.consumer with
    | .holding view => view.slots[i]?.map fun slot => .byte (some (s.rb.loadByte slot))
    | _ => none
  | .commitRead k =>
    let can := min k s.rb.pendingR
    if k == 0 || can == 0 then some (.count 0) else none
  | .consume =>
    match s.consumer with
    | .popTail h => if h - s.rb.tail == 0 then some (.byte none) else none
    | .popStore _ c => some (.byte (some c))
    | .prepareTail n h => some (.count (s.rb.prepareReadAt h s.rb.tail n).1.size.toNat)
    | .commitStore _ can _ => some (.count can.toNat)
    | _ => none

def events (s : Spsc) (act : Act) : List HistoryEvent :=
  (act.called.map (.call act.party)).toList ++ ((s.replied act).map (.reply act.party)).toList

def observe (s : Spsc) (act : Act) : Option (Spsc × List HistoryEvent) :=
  (s.step act).map fun r => (r.1, s.events act)

end Spsc

def ProducerPc.reserved (draft : List Byte) : ProducerPc → Option (List Byte)
  | .holding _ => some draft
  | .commitHead _ => some draft
  | .commitStore _ _ => some draft
  | _ => none

def ConsumerPc.offered : ConsumerPc → Option Nat
  | .holding view => some view.size.toNat
  | .commitTail view _ => some view.size.toNat
  | .commitStore view _ _ => some view.size.toNat
  | _ => none

-- a `put` that fails has found the queue full when it loaded `tail_`, all others wait for the last step
def ProducerPc.status (rb : RingBuffer) : ProducerPc → Status Op Out
  | .idle => .idle
  | .putTail c => .called (.put c)
  | .putHead c t => if rb.capacity - (rb.head - t) == 0 then .done (.flag false) else .called (.put c)
  | .putByte c _ => .called (.put c)
  | .putStore c _ => .called (.put c)
  | .prepareTail n => .called (.prepareWrite n)
  | .prepareHead n _ => .called (.prepareWrite n)
  | .holding _ => .idle
  | .commitHead can => .called (.commitWrite can)
  | .commitStore can _ => .called (.commitWrite can)

def ConsumerPc.status (rb : RingBuffer) : ConsumerPc → Status Op Out
  | .idle => .idle
  | .popHead => .called .pop
  | .popTail h => if h - rb.tail == 0 then .done (.byte none) else .called .pop
  | .popByte _ => .called .pop
  | .popStore _ _ => .called .pop
  | .prepareHead n => .called (.prepareRead n)
  | .prepareTail n _ => .called (.prepareRead n)
  | .holding _ => .idle
  | .commitTail _ can => .called (.commitRead can)
  | .commitStore _ can _ => .called (.commitRead can)

def ProducerPc.Covered (rb : RingBuffer) : ProducerPc → Prop
  | .holding view => view.size.toNat ≤ rb.pendingW.toNat
  | _ => True

def ConsumerPc.Covered (rb : RingBuffer) : ConsumerPc → Prop
  | .holding view => view.size.toNat ≤ rb.pendingR.toNat
  | _ => True

theorem ProducerPc.Covered.frame {pc : ProducerPc} {rb rb' : RingBuffer} (h : pc.Covered rb)
    (hpending : rb'.pendingW = rb.pendingW)
    : pc.Covered rb' := by
  cases pc with
  | holding view =>
    dsimp only [ProducerPc.Covered] at h ⊢
    rw [hpending]
    exact h
  | _ => trivial

theorem ConsumerPc.Covered.frame {pc : ConsumerPc} {rb rb' : RingBuffer} (h : pc.Covered rb)
    (hpending : rb'.pendingR = rb.pendingR)
    : pc.Covered rb' := by
  cases pc with
  | holding view =>
    dsimp only [ConsumerPc.Covered] at h ⊢
    rw [hpending]
    exact h
  | _ => trivial

namespace Spsc

def abs (s : Spsc) : Queue where
  capacity := s.rb.capacity.toNat
  queue := s.published.drop s.consumed.length
  reserved := s.producer.reserved s.draft
  offered := s.consumer.offered

def status (s : Spsc) : Party → Status Op Out
  | .producer => s.producer.status s.rb
  | .consumer => s.consumer.status s.rb

structure Observed (s : Spsc) : Prop where
  inv : s.Inv
  producer : s.producer.Covered s.rb
  consumer : s.consumer.Covered s.rb

structure Observes (s : Spsc) (act : Act) (s' : Spsc) : Prop where
  observed : s'.Observed
  moves : Moves Queue.Step s.abs s.status (s.events act) s'.abs s'.status

section Steps

variable {s s' : Spsc} {acc : Access}

theorem status_of_producer (hconsumer : s'.consumer = s.consumer) (htail : s'.rb.tail = s.rb.tail)
    : s'.status = Function.update s.status .producer (s'.producer.status s'.rb) := by
  funext t
  cases t with
  | producer => rfl
  | consumer =>
    change s'.consumer.status s'.rb = s.consumer.status s.rb
    rw [hconsumer]
    cases s.consumer <;> simp [ConsumerPc.status, htail]

theorem status_of_consumer (hproducer : s'.producer = s.producer) (hhead : s'.rb.head = s.rb.head)
    (hcapacity : s'.rb.capacity = s.rb.capacity)
    : s'.status = Function.update s.status .consumer (s'.consumer.status s'.rb) := by
  funext t
  cases t with
  | consumer => rfl
  | producer =>
    change s'.producer.status s'.rb = s.producer.status s.rb
    rw [hproducer]
    cases s.producer <;> simp [ProducerPc.status, hhead, hcapacity]

theorem moves_of_producer {act : Act} {es : List HistoryEvent} {a : Queue} (hconsumer : s'.consumer = s.consumer)
    (htail : s'.rb.tail = s.rb.tail) (habs : s'.abs = a) (hevents : s.events act = es)
    (hmoves : Moves Queue.Step s.abs s.status es a
      (Function.update s.status .producer (s'.producer.status s'.rb)))
    : Moves Queue.Step s.abs s.status (s.events act) s'.abs s'.status := by
  rw [hevents, habs, status_of_producer hconsumer htail]
  exact hmoves

theorem moves_of_consumer {act : Act} {es : List HistoryEvent} {a : Queue} (hproducer : s'.producer = s.producer)
    (hhead : s'.rb.head = s.rb.head) (hcapacity : s'.rb.capacity = s.rb.capacity) (habs : s'.abs = a)
    (hevents : s.events act = es)
    (hmoves : Moves Queue.Step s.abs s.status es a
      (Function.update s.status .consumer (s'.consumer.status s'.rb)))
    : Moves Queue.Step s.abs s.status (s.events act) s'.abs s'.status := by
  rw [hevents, habs, status_of_consumer hproducer hhead hcapacity]
  exact hmoves

theorem length_queue (s : Spsc) : s.abs.queue.length = s.published.length - s.consumed.length := by
  apply List.length_drop

theorem Inv.full_iff (h : s.Inv)
    : (s.rb.capacity - (s.rb.head - s.rb.tail) == 0) = true ↔ ¬ s.abs.queue.length < s.abs.capacity := by
  have hroom := h.shared.room
  have hsize : (s.rb.head - s.rb.tail).toNat = s.published.length - s.consumed.length := h.shared.size_eq
  have hcapacity : s.abs.capacity = s.rb.capacity.toNat := rfl
  rw [beq_iff_eq, Word.eq_zero_iff_toNat, Word.toNat_sub_of_toNat_le (by omega), length_queue, hsize, hcapacity]
  omega

theorem Inv.empty_iff (h : s.Inv) : (s.rb.head - s.rb.tail == 0) = true ↔ s.abs.queue = [] := by
  have hsize : (s.rb.head - s.rb.tail).toNat = s.published.length - s.consumed.length := h.shared.size_eq
  rw [beq_iff_eq, Word.eq_zero_iff_toNat, hsize, ← List.length_eq_zero_iff, length_queue]

theorem abs_publish (h : s.Inv) (bs : List Byte)
    : (s.published ++ bs).drop s.consumed.length = s.abs.queue ++ bs := by
  rw [List.drop_append_of_le_length h.shared.le]
  rfl

theorem pending_fits {avail pending n : SizeT} {free : Nat} (hfree : free < 2 ^ 64)
    (havail : avail.toNat = free - pending.toNat)
    : (min n avail).toNat ≤ (pending + min n avail).toNat := by
  have := UInt64.toNat_lt pending
  have hle : (min n avail).toNat ≤ free - pending.toNat := by
    rw [Word.toNat_min]
    omega
  rw [Word.toNat_add_of_lt (by omega)]
  omega

theorem Observed.produce_silent {pc : ProducerPc} (h : s.Observed) (hinv' : Inv { s with producer := pc })
    (hcovered : pc.Covered s.rb) (hreserved : pc.reserved s.draft = s.producer.reserved s.draft)
    (hstatus : pc.status s.rb = s.producer.status s.rb) (hevents : s.events .produce = [])
    : s.Observes .produce { s with producer := pc } := by
  refine ⟨⟨hinv', hcovered, h.consumer⟩, ?_⟩
  refine moves_of_producer (a := s.abs) rfl rfl ?_ hevents ?_
  . simp only [abs, hreserved]
  . dsimp only
    rw [hstatus]
    apply Moves.stay rfl

theorem Observed.putTail {c : Byte} (h : s.Observed) (hpc : s.producer = .putTail c)
    (hstep : s.produce = some (s', acc))
    : s.Observes .produce s' := by
  have hinv := h.inv
  have hinv' := (hinv.produce hstep).1
  have hst : s.status .producer = s.producer.status s.rb := rfl
  unfold Spsc.produce at hstep
  have hevents : s.events .produce = [] := by simp [events, replied, Act.called, hpc]
  rw [hpc] at hstep hst
  cases hstep
  refine ⟨⟨hinv', trivial, h.consumer⟩, ?_⟩
  refine moves_of_producer (a := s.abs) rfl rfl ?_ hevents ?_
  . simp [abs, hpc, ProducerPc.reserved]
  . -- this is where a `put` that fails takes effect
    dsimp only [ProducerPc.status]
    split
    . next hfull =>
      apply Moves.take hst
      apply Queue.Step.putFull
      . simp [abs, hpc, ProducerPc.reserved]
      . exact hinv.full_iff.mp hfull
    . apply Moves.stay hst

theorem Observed.putHead {c : Byte} {t : SizeT} (h : s.Observed) (hpc : s.producer = .putHead c t)
    (hstep : s.produce = some (s', acc))
    : s.Observes .produce s' := by
  have hinv' := (h.inv.produce hstep).1
  have hst : s.status .producer = s.producer.status s.rb := rfl
  unfold Spsc.produce at hstep
  rw [hpc] at hstep
  dsimp only at hstep
  split at hstep
  . next hfull =>
    have hevents : s.events .produce = [.reply .producer (.flag false)] := by
      simp only [events, replied, Act.called, hpc, hfull]
      rfl
    simp only [hpc, ProducerPc.status, hfull, ↓reduceIte] at hst
    cases hstep
    refine ⟨⟨hinv', trivial, h.consumer⟩, ?_⟩
    refine moves_of_producer (a := s.abs) rfl rfl ?_ hevents ?_
    . simp [abs, hpc, ProducerPc.reserved]
    . apply Moves.answer hst
  . next hfree =>
    cases hstep
    apply h.produce_silent hinv' trivial
    . rw [hpc]
      rfl
    . rw [hpc]
      exact (if_neg hfree).symm
    . simp [events, replied, Act.called, hpc, hfree]

theorem Observed.putByte {c : Byte} {head : SizeT} (h : s.Observed) (hpc : s.producer = .putByte c head)
    (hstep : s.produce = some (s', acc))
    : s.Observes .produce s' := by
  have hinv' := (h.inv.produce hstep).1
  have hst : s.status .producer = s.producer.status s.rb := rfl
  unfold Spsc.produce at hstep
  have hevents : s.events .produce = [] := by simp [events, replied, Act.called, hpc]
  rw [hpc] at hstep hst
  cases hstep
  refine ⟨⟨hinv', trivial, h.consumer.frame rfl⟩, ?_⟩
  refine moves_of_producer (a := s.abs) rfl rfl ?_ hevents ?_
  . simp [abs, hpc, ProducerPc.reserved]
  . apply Moves.stay hst

theorem Observed.putStore {c : Byte} {head : SizeT} (h : s.Observed) (hpc : s.producer = .putStore c head)
    (hstep : s.produce = some (s', acc))
    : s.Observes .produce s' := by
  have hinv := h.inv
  have hinv' := (hinv.produce hstep).1
  have hok := h.inv.producer
  have hst : s.status .producer = s.producer.status s.rb := rfl
  have hqueue := length_queue s
  have hle := h.inv.shared.le
  unfold Spsc.produce at hstep
  have hevents : s.events .produce = [.reply .producer (.flag true)] := by
    simp [events, replied, Act.called, Act.party, hpc]
  rw [hpc] at hstep hst hok
  rcases hok with ⟨_, _, hreserved⟩
  cases hstep
  refine ⟨⟨hinv', trivial, h.consumer.frame rfl⟩, ?_⟩
  refine moves_of_producer (a := { s.abs with queue := s.abs.queue ++ [c] }) rfl rfl ?_ hevents ?_
  . simp [abs, hpc, ProducerPc.reserved, abs_publish hinv]
  . apply Moves.finish hst
    apply Queue.Step.put
    . simp [abs, hpc, ProducerPc.reserved]
    . have hroom := hreserved.room
      change s.abs.queue.length < s.rb.capacity.toNat
      rw [List.length_singleton] at hroom
      omega

theorem Observed.prepareWriteTail {n : SizeT} (h : s.Observed) (hpc : s.producer = .prepareTail n)
    (hstep : s.produce = some (s', acc))
    : s.Observes .produce s' := by
  have hinv' := (h.inv.produce hstep).1
  unfold Spsc.produce at hstep
  rw [hpc] at hstep
  cases hstep
  apply h.produce_silent hinv' trivial
  . rw [hpc]
    rfl
  . rw [hpc]
    rfl
  . simp [events, replied, Act.called, hpc]

theorem Observed.prepareWriteHead {n t : SizeT} (h : s.Observed) (hpc : s.producer = .prepareHead n t)
    (hstep : s.produce = some (s', acc))
    : s.Observes .produce s' := by
  have hinv' := (h.inv.produce hstep).1
  have hok' := hinv'.producer
  have hst : s.status .producer = s.producer.status s.rb := rfl
  have hqueue := length_queue s
  have hle := h.inv.shared.le
  unfold Spsc.produce at hstep
  have hevents : s.events .produce
      = [.reply .producer (.count (s.rb.prepareWriteAt t s.rb.head n).1.size.toNat)] := by
    simp [events, replied, Act.called, Act.party, hpc]
  rw [hpc] at hstep hst
  simp only [prepareWriteAt_snd, Option.some.injEq, Prod.mk.injEq] at hstep
  rcases hstep with ⟨rfl, _⟩
  have hsize := s.rb.size_prepareWriteAt t s.rb.head n
  rcases hok' with ⟨_, hlen, hreserved⟩
  refine ⟨⟨hinv', ?_, h.consumer.frame rfl⟩, ?_⟩
  . dsimp only [ProducerPc.Covered]
    rw [hsize, pendingW_producer]
    apply pending_fits (UInt64.toNat_lt _) (s.rb.toNat_availableW t s.rb.head)
  . refine moves_of_producer rfl rfl rfl hevents ?_
    apply Moves.finish hst
    rw [← hlen]
    apply Queue.Step.prepareWrite
    . simp [abs, hpc, ProducerPc.reserved]
    . rw [hlen, hsize, Word.toNat_min]
      omega
    . have hroom := hreserved.room
      change s.abs.queue.length + _ ≤ s.rb.capacity.toNat
      dsimp only at hroom hlen ⊢
      rw [capacity_producer] at hroom
      omega

theorem Observed.commitWriteHead {can : SizeT} (h : s.Observed) (hpc : s.producer = .commitHead can)
    (hstep : s.produce = some (s', acc))
    : s.Observes .produce s' := by
  have hinv' := (h.inv.produce hstep).1
  unfold Spsc.produce at hstep
  rw [hpc] at hstep
  cases hstep
  apply h.produce_silent hinv' trivial
  . rw [hpc]
    rfl
  . rw [hpc]
    rfl
  . simp [events, replied, Act.called, hpc]

theorem Observed.commitWriteStore {can newH : SizeT} (h : s.Observed) (hpc : s.producer = .commitStore can newH)
    (hstep : s.produce = some (s', acc))
    : s.Observes .produce s' := by
  have hinv := h.inv
  have hinv' := (hinv.produce hstep).1
  have hok := h.inv.producer
  have hst : s.status .producer = s.producer.status s.rb := rfl
  unfold Spsc.produce at hstep
  have hevents : s.events .produce = [.reply .producer (.count can.toNat)] := by
    simp [events, replied, Act.called, Act.party, hpc]
  rw [hpc] at hstep hst hok
  cases hstep
  refine ⟨⟨hinv', trivial, h.consumer.frame rfl⟩, ?_⟩
  refine moves_of_producer
    (a := { s.abs with queue := s.abs.queue ++ s.draft.take can.toNat, reserved := none }) rfl rfl ?_ hevents ?_
  . simp [abs, ProducerPc.reserved, abs_publish hinv]
  . apply Moves.finish hst
    apply Queue.Step.commitWrite
    . simp [abs, hpc, ProducerPc.reserved]
    . exact hok.1

theorem Observed.produce (h : s.Observed) (hstep : s.produce = some (s', acc)) : s.Observes .produce s' := by
  cases hpc : s.producer with
  | idle => simp [Spsc.produce, hpc] at hstep
  | holding view => simp [Spsc.produce, hpc] at hstep
  | putTail c => exact h.putTail hpc hstep
  | putHead c t => exact h.putHead hpc hstep
  | putByte c head => exact h.putByte hpc hstep
  | putStore c head => exact h.putStore hpc hstep
  | prepareTail n => exact h.prepareWriteTail hpc hstep
  | prepareHead n t => exact h.prepareWriteHead hpc hstep
  | commitHead can => exact h.commitWriteHead hpc hstep
  | commitStore can newH => exact h.commitWriteStore hpc hstep

theorem abs_takeOut (s : Spsc) (bs : List Byte)
    : s.published.drop (s.consumed ++ bs).length = s.abs.queue.drop bs.length := by
  rw [List.length_append, ← List.drop_drop]
  rfl

theorem Observed.consume_silent {pc : ConsumerPc} (h : s.Observed) (hinv' : Inv { s with consumer := pc })
    (hcovered : pc.Covered s.rb) (hoffered : pc.offered = s.consumer.offered)
    (hstatus : pc.status s.rb = s.consumer.status s.rb) (hevents : s.events .consume = [])
    : s.Observes .consume { s with consumer := pc } := by
  refine ⟨⟨hinv', h.producer, hcovered⟩, ?_⟩
  refine moves_of_consumer (a := s.abs) rfl rfl rfl ?_ hevents ?_
  . simp only [abs, hoffered]
  . dsimp only
    rw [hstatus]
    apply Moves.stay rfl

theorem Observed.popHead (h : s.Observed) (hpc : s.consumer = .popHead)
    (hstep : s.consume = some (s', acc))
    : s.Observes .consume s' := by
  have hinv := h.inv
  have hinv' := (hinv.consume hstep).1
  have hst : s.status .consumer = s.consumer.status s.rb := rfl
  unfold Spsc.consume at hstep
  have hevents : s.events .consume = [] := by simp [events, replied, Act.called, hpc]
  rw [hpc] at hstep hst
  cases hstep
  refine ⟨⟨hinv', h.producer, trivial⟩, ?_⟩
  refine moves_of_consumer (a := s.abs) rfl rfl rfl ?_ hevents ?_
  . simp [abs, hpc, ConsumerPc.offered]
  . -- this is where a `pop` that fails takes effect
    dsimp only [ConsumerPc.status]
    split
    . next hempty =>
      apply Moves.take hst
      apply Queue.Step.popEmpty
      . simp [abs, hpc, ConsumerPc.offered]
      . exact hinv.empty_iff.mp hempty
    . apply Moves.stay hst

theorem Observed.popTail {head : SizeT} (h : s.Observed) (hpc : s.consumer = .popTail head)
    (hstep : s.consume = some (s', acc))
    : s.Observes .consume s' := by
  have hinv' := (h.inv.consume hstep).1
  have hst : s.status .consumer = s.consumer.status s.rb := rfl
  unfold Spsc.consume at hstep
  rw [hpc] at hstep
  dsimp only at hstep
  split at hstep
  . next hempty =>
    have hevents : s.events .consume = [.reply .consumer (.byte none)] := by
      simp only [events, replied, Act.called, hpc, hempty]
      rfl
    simp only [hpc, ConsumerPc.status, hempty, ↓reduceIte] at hst
    cases hstep
    refine ⟨⟨hinv', h.producer, trivial⟩, ?_⟩
    refine moves_of_consumer (a := s.abs) rfl rfl rfl ?_ hevents ?_
    . simp [abs, hpc, ConsumerPc.offered]
    . apply Moves.answer hst
  . next hsome =>
    cases hstep
    apply h.consume_silent hinv' trivial
    . rw [hpc]
      rfl
    . rw [hpc]
      exact (if_neg hsome).symm
    . simp [events, replied, Act.called, hpc, hsome]

theorem Observed.popByte {t : SizeT} (h : s.Observed) (hpc : s.consumer = .popByte t)
    (hstep : s.consume = some (s', acc))
    : s.Observes .consume s' := by
  have hinv' := (h.inv.consume hstep).1
  unfold Spsc.consume at hstep
  rw [hpc] at hstep
  cases hstep
  apply h.consume_silent hinv' trivial
  . rw [hpc]
    rfl
  . rw [hpc]
    rfl
  . simp [events, replied, Act.called, hpc]

theorem Observed.popStore {t : SizeT} {c : Byte} (h : s.Observed) (hpc : s.consumer = .popStore t c)
    (hstep : s.consume = some (s', acc))
    : s.Observes .consume s' := by
  have hinv' := (h.inv.consume hstep).1
  have hok := h.inv.consumer
  have hst : s.status .consumer = s.consumer.status s.rb := rfl
  unfold Spsc.consume at hstep
  have hevents : s.events .consume = [.reply .consumer (.byte (some c))] := by
    simp [events, replied, Act.called, Act.party, hpc]
  rw [hpc] at hstep hst hok
  rcases List.getElem?_eq_some_iff.mp hok.2 with ⟨hlt, hget⟩
  cases hstep
  refine ⟨⟨hinv', h.producer.frame rfl, trivial⟩, ?_⟩
  refine moves_of_consumer (a := { s.abs with queue := s.abs.queue.drop 1 }) rfl rfl rfl ?_ hevents ?_
  . simp only [abs, hpc, ConsumerPc.offered, abs_takeOut]
    rfl
  . apply Moves.finish hst
    apply Queue.Step.pop
    . simp [abs, hpc, ConsumerPc.offered]
    . change s.published.drop s.consumed.length = c :: (s.published.drop s.consumed.length).drop 1
      rw [List.drop_drop, List.drop_eq_getElem_cons hlt, hget]

theorem Observed.prepareReadHead {n : SizeT} (h : s.Observed) (hpc : s.consumer = .prepareHead n)
    (hstep : s.consume = some (s', acc))
    : s.Observes .consume s' := by
  have hinv' := (h.inv.consume hstep).1
  unfold Spsc.consume at hstep
  rw [hpc] at hstep
  cases hstep
  apply h.consume_silent hinv' trivial
  . rw [hpc]
    rfl
  . rw [hpc]
    rfl
  . simp [events, replied, Act.called, hpc]

theorem Observed.prepareReadTail {n head : SizeT} (h : s.Observed) (hpc : s.consumer = .prepareTail n head)
    (hstep : s.consume = some (s', acc))
    : s.Observes .consume s' := by
  have hinv' := (h.inv.consume hstep).1
  have hok' := hinv'.consumer
  have hst : s.status .consumer = s.consumer.status s.rb := rfl
  have hqueue := length_queue s
  unfold Spsc.consume at hstep
  have hevents : s.events .consume
      = [.reply .consumer (.count (s.rb.prepareReadAt head s.rb.tail n).1.size.toNat)] := by
    simp [events, replied, Act.called, Act.party, hpc]
  rw [hpc] at hstep hst
  simp only [prepareReadAt_snd, Option.some.injEq, Prod.mk.injEq] at hstep
  rcases hstep with ⟨rfl, _⟩
  have hsize := s.rb.size_prepareReadAt head s.rb.tail n
  refine ⟨⟨hinv', h.producer.frame rfl, ?_⟩, ?_⟩
  . dsimp only [ConsumerPc.Covered]
    rw [hsize, pendingR_consumer]
    apply pending_fits (UInt64.toNat_lt _) (s.rb.toNat_availR head s.rb.tail)
  . refine moves_of_consumer rfl rfl rfl rfl hevents ?_
    apply Moves.finish hst
    apply Queue.Step.prepareRead
    . simp [abs, hpc, ConsumerPc.offered]
    . rw [hsize, Word.toNat_min]
      omega
    . have hle := hok'.2
      dsimp only at hle
      omega

theorem Observed.commitReadTail {view : View} {can : SizeT} (h : s.Observed)
    (hpc : s.consumer = .commitTail view can) (hstep : s.consume = some (s', acc))
    : s.Observes .consume s' := by
  have hinv' := (h.inv.consume hstep).1
  unfold Spsc.consume at hstep
  rw [hpc] at hstep
  cases hstep
  apply h.consume_silent hinv' trivial
  . rw [hpc]
    rfl
  . rw [hpc]
    rfl
  . simp [events, replied, Act.called, hpc]

theorem Observed.commitReadStore {view : View} {can newT : SizeT} (h : s.Observed)
    (hpc : s.consumer = .commitStore view can newT) (hstep : s.consume = some (s', acc))
    : s.Observes .consume s' := by
  have hinv' := (h.inv.consume hstep).1
  have hok := h.inv.consumer
  have hst : s.status .consumer = s.consumer.status s.rb := rfl
  unfold Spsc.consume at hstep
  have hevents : s.events .consume = [.reply .consumer (.count can.toNat)] := by
    simp [events, replied, Act.called, Act.party, hpc]
  rw [hpc] at hstep hst hok
  rcases hok with ⟨hslots, _, hcan, _⟩
  have hlen : (Circular.read s.rb.bytes (view.slots.take can.toNat)).length = can.toNat := by
    rw [Circular.length_read, List.length_take, hslots, Circular.length_slots]
    omega
  cases hstep
  refine ⟨⟨hinv', h.producer.frame rfl, trivial⟩, ?_⟩
  refine moves_of_consumer
    (a := { s.abs with queue := s.abs.queue.drop can.toNat, offered := none }) rfl rfl rfl ?_ hevents ?_
  . simp only [abs, ConsumerPc.offered, abs_takeOut, hlen]
  . apply Moves.finish hst
    apply Queue.Step.commitRead s.abs view.size.toNat
    . simp [abs, hpc, ConsumerPc.offered]
    . exact hcan

theorem Observed.consume (h : s.Observed) (hstep : s.consume = some (s', acc)) : s.Observes .consume s' := by
  cases hpc : s.consumer with
  | idle => simp [Spsc.consume, hpc] at hstep
  | holding view => simp [Spsc.consume, hpc] at hstep
  | popHead => exact h.popHead hpc hstep
  | popTail head => exact h.popTail hpc hstep
  | popByte t => exact h.popByte hpc hstep
  | popStore t c => exact h.popStore hpc hstep
  | prepareHead n => exact h.prepareReadHead hpc hstep
  | prepareTail n head => exact h.prepareReadTail hpc hstep
  | commitTail view can => exact h.commitReadTail hpc hstep
  | commitStore view can newT => exact h.commitReadStore hpc hstep

theorem min_pending {k pending size : SizeT} (hk : k ≤ size) (hle : size.toNat ≤ pending.toNat)
    : min k pending = k := by
  rw [UInt64.le_iff_toNat_le] at hk
  rw [← UInt64.toNat_inj, Word.toNat_min]
  omega

theorem Observed.put {c : Byte} (h : s.Observed) (hstep : s.step (.put c) = some (s', acc))
    : s.Observes (.put c) s' := by
  have hinv' := (h.inv.step hstep).1
  have hst : s.status .producer = s.producer.status s.rb := rfl
  simp only [Spsc.step] at hstep
  split at hstep
  . next hpc =>
    rw [hpc] at hst
    split at hstep
    . next hnull =>
      have hevents : s.events (.put c) = [.call .producer (.put c), .reply .producer (.flag false)] := by
        simp [events, replied, Act.called, Act.party, hnull]
      cases hstep
      refine ⟨h, ?_⟩
      refine moves_of_producer (a := s.abs) rfl rfl rfl hevents ?_
      rw [hpc]
      apply Moves.once hst
      apply Queue.Step.putFull
      . simp [abs, hpc, ProducerPc.reserved]
      . rw [Bool.not_eq_true'] at hnull
        change ¬ _ < s.rb.capacity.toNat
        rw [s.rb.capacity_null hnull]
        apply Nat.not_lt_zero
    . next hvalid =>
      have hevents : s.events (.put c) = [.call .producer (.put c)] := by
        simp [events, replied, Act.called, Act.party, hvalid]
      cases hstep
      refine ⟨⟨hinv', trivial, h.consumer⟩, ?_⟩
      refine moves_of_producer (a := s.abs) rfl rfl ?_ hevents ?_
      . simp [abs, hpc, ProducerPc.reserved]
      . apply Moves.start hst
  . simp at hstep

theorem Observed.prepareWrite {n : SizeT} (h : s.Observed) (hstep : s.step (.prepareWrite n) = some (s', acc))
    : s.Observes (.prepareWrite n) s' := by
  have hinv := h.inv
  have hinv' := (hinv.step hstep).1
  have hst : s.status .producer = s.producer.status s.rb := rfl
  simp only [Spsc.step] at hstep
  split at hstep
  . next hpc =>
    rw [hpc] at hst
    split at hstep
    . next hempty =>
      have hevents : s.events (.prepareWrite n)
          = [.call .producer (.prepareWrite n), .reply .producer (.count 0)] := by
        simp only [events, replied, Act.called, Act.party, hempty]
        rfl
      cases hstep
      refine ⟨⟨hinv', Nat.zero_le _, h.consumer⟩, ?_⟩
      refine moves_of_producer rfl rfl rfl hevents ?_
      apply Moves.once hst
      apply Queue.Step.prepareWrite s.abs n []
      . simp [abs, hpc, ProducerPc.reserved]
      . apply Nat.zero_le
      . have hroom := hinv.shared.room
        rw [length_queue]
        change _ ≤ s.rb.capacity.toNat
        rw [List.length_nil]
        omega
    . next hsome =>
      have hevents : s.events (.prepareWrite n) = [.call .producer (.prepareWrite n)] := by
        simp [events, replied, Act.called, Act.party, hsome]
      cases hstep
      refine ⟨⟨hinv', trivial, h.consumer⟩, ?_⟩
      refine moves_of_producer (a := s.abs) rfl rfl ?_ hevents ?_
      . simp [abs, hpc, ProducerPc.reserved]
      . apply Moves.start hst
  . simp at hstep

theorem Observed.writeView {i : Nat} {c : Byte} (h : s.Observed) (hstep : s.step (.writeView i c) = some (s', acc))
    : s.Observes (.writeView i c) s' := by
  have hinv := h.inv
  have hinv' := (hinv.step hstep).1
  have hst : s.status .producer = s.producer.status s.rb := rfl
  have hevents : s.events (.writeView i c) = [.call .producer (.writeView i c), .reply .producer .done] := rfl
  have hok := hinv.producer
  have hcovered := h.producer
  simp only [Spsc.step] at hstep
  split at hstep
  . next view hpc =>
    rw [hpc] at hst hok hcovered
    split at hstep
    . next hi =>
      rw [hok.1, Circular.length_slots, ← hok.2.1] at hi
      cases hstep
      refine ⟨⟨hinv', ?_, h.consumer.frame rfl⟩, ?_⟩
      . dsimp only
        rw [hpc]
        exact hcovered
      . refine moves_of_producer (a := { s.abs with reserved := some (s.draft.set i c) }) rfl rfl ?_ hevents ?_
        . simp [abs, hpc, ProducerPc.reserved]
        . dsimp only
          rw [hpc]
          apply Moves.once hst
          apply Queue.Step.writeView
          . simp [abs, hpc, ProducerPc.reserved]
          . exact hi
    . simp at hstep
  . simp at hstep

theorem Observed.commitWrite {k : SizeT} (h : s.Observed) (hstep : s.step (.commitWrite k) = some (s', acc))
    : s.Observes (.commitWrite k) s' := by
  have hinv := h.inv
  have hinv' := (hinv.step hstep).1
  have hst : s.status .producer = s.producer.status s.rb := rfl
  have hok := hinv.producer
  have hcovered := h.producer
  simp only [Spsc.step] at hstep
  split at hstep
  . next view hpc =>
    rw [hpc] at hst hok hcovered
    split at hstep
    . next hk =>
      have hcan := min_pending hk hcovered
      rw [hcan] at hstep
      split at hstep
      . next hzero =>
        rw [Bool.or_self, beq_iff_eq] at hzero
        have hevents : s.events (.commitWrite k)
            = [.call .producer (.commitWrite k), .reply .producer (.count 0)] := by
          simp [events, replied, Act.called, Act.party, hzero]
        cases hstep
        refine ⟨⟨hinv', trivial, h.consumer⟩, ?_⟩
        refine moves_of_producer (a := { s.abs with queue := s.abs.queue ++ s.draft.take 0, reserved := none })
          rfl rfl ?_ hevents ?_
        . simp [abs, ProducerPc.reserved]
        . apply Moves.once hst
          rw [hzero]
          apply Queue.Step.commitWrite s.abs s.draft 0
          . simp [abs, hpc, ProducerPc.reserved]
          . apply Nat.zero_le
      . next hsome =>
        rw [Bool.or_self, beq_iff_eq] at hsome
        have hevents : s.events (.commitWrite k) = [.call .producer (.commitWrite k)] := by
          simp [events, replied, Act.called, Act.party, hcan, hsome]
        cases hstep
        refine ⟨⟨hinv', trivial, h.consumer⟩, ?_⟩
        refine moves_of_producer (a := s.abs) rfl rfl ?_ hevents ?_
        . simp [abs, hpc, ProducerPc.reserved]
        . apply Moves.start hst
    . simp at hstep
  . simp at hstep

theorem Observed.pop (h : s.Observed) (hstep : s.step .pop = some (s', acc))
    : s.Observes .pop s' := by
  have hinv := h.inv
  have hinv' := (hinv.step hstep).1
  have hst : s.status .consumer = s.consumer.status s.rb := rfl
  simp only [Spsc.step] at hstep
  split at hstep
  . next hpc =>
    rw [hpc] at hst
    split at hstep
    . next hnull =>
      have hevents : s.events .pop = [.call .consumer .pop, .reply .consumer (.byte none)] := by
        simp [events, replied, Act.called, Act.party, hnull]
      cases hstep
      refine ⟨h, ?_⟩
      refine moves_of_consumer (a := s.abs) rfl rfl rfl rfl hevents ?_
      rw [hpc]
      apply Moves.once hst
      apply Queue.Step.popEmpty
      . simp [abs, hpc, ConsumerPc.offered]
      . rw [Bool.not_eq_true'] at hnull
        have hroom := hinv.shared.room
        rw [s.rb.capacity_null hnull] at hroom
        rw [← List.length_eq_zero_iff, length_queue]
        omega
    . next hvalid =>
      have hevents : s.events .pop = [.call .consumer .pop] := by
        simp [events, replied, Act.called, Act.party, hvalid]
      cases hstep
      refine ⟨⟨hinv', h.producer, trivial⟩, ?_⟩
      refine moves_of_consumer (a := s.abs) rfl rfl rfl ?_ hevents ?_
      . simp [abs, hpc, ConsumerPc.offered]
      . apply Moves.start hst
  . simp at hstep

theorem Observed.prepareRead {n : SizeT} (h : s.Observed) (hstep : s.step (.prepareRead n) = some (s', acc))
    : s.Observes (.prepareRead n) s' := by
  have hinv' := (h.inv.step hstep).1
  have hst : s.status .consumer = s.consumer.status s.rb := rfl
  simp only [Spsc.step] at hstep
  split at hstep
  . next hpc =>
    rw [hpc] at hst
    split at hstep
    . next hempty =>
      have hevents : s.events (.prepareRead n)
          = [.call .consumer (.prepareRead n), .reply .consumer (.count 0)] := by
        simp only [events, replied, Act.called, Act.party, hempty]
        rfl
      cases hstep
      refine ⟨⟨hinv', h.producer, Nat.zero_le _⟩, ?_⟩
      refine moves_of_consumer rfl rfl rfl rfl hevents ?_
      apply Moves.once hst
      apply Queue.Step.prepareRead s.abs n 0
      . simp [abs, hpc, ConsumerPc.offered]
      . apply Nat.zero_le
      . apply Nat.zero_le
    . next hsome =>
      have hevents : s.events (.prepareRead n) = [.call .consumer (.prepareRead n)] := by
        simp [events, replied, Act.called, Act.party, hsome]
      cases hstep
      refine ⟨⟨hinv', h.producer, trivial⟩, ?_⟩
      refine moves_of_consumer (a := s.abs) rfl rfl rfl ?_ hevents ?_
      . simp [abs, hpc, ConsumerPc.offered]
      . apply Moves.start hst
  . simp at hstep

theorem Observed.readView {i : Nat} (h : s.Observed) (hstep : s.step (.readView i) = some (s', acc))
    : s.Observes (.readView i) s' := by
  have hinv := h.inv
  have hinv' := (hinv.step hstep).1
  have hst : s.status .consumer = s.consumer.status s.rb := rfl
  have hok := hinv.consumer
  simp only [Spsc.step] at hstep
  split at hstep
  . next view hpc =>
    rw [hpc] at hst hok
    split at hstep
    . next hi =>
      have hevents : s.events (.readView i) = [.call .consumer (.readView i),
          .reply .consumer (.byte (some (s.rb.loadByte view.slots[i])))] := by
        simp [events, replied, Act.called, Act.party, hpc, hi]
      have hbyte := hinv.readView hpc hi
      rw [hok.1, Circular.length_slots] at hi
      have hle := hok.2
      have hlt : i < s.abs.queue.length := by
        rw [length_queue]
        omega
      have hget : s.abs.queue[i] = s.rb.loadByte view.slots[i] := by
        rw [← Option.some.injEq, ← hbyte, ← List.getElem?_eq_getElem hlt]
        apply List.getElem?_drop
      cases hstep
      refine ⟨h, ?_⟩
      refine moves_of_consumer (a := s.abs) rfl rfl rfl rfl hevents ?_
      rw [hpc, ← hget]
      apply Moves.once hst
      apply Queue.Step.readView s.abs view.size.toNat
      . simp [abs, hpc, ConsumerPc.offered]
      . exact hi
    . simp at hstep
  . simp at hstep

theorem Observed.commitRead {k : SizeT} (h : s.Observed) (hstep : s.step (.commitRead k) = some (s', acc))
    : s.Observes (.commitRead k) s' := by
  have hinv' := (h.inv.step hstep).1
  have hst : s.status .consumer = s.consumer.status s.rb := rfl
  have hcovered := h.consumer
  simp only [Spsc.step] at hstep
  split at hstep
  . next view hpc =>
    rw [hpc] at hst hcovered
    split at hstep
    . next hk =>
      have hcan := min_pending hk hcovered
      rw [UInt64.le_iff_toNat_le] at hk
      rw [hcan] at hstep
      split at hstep
      . next hzero =>
        rw [Bool.or_self, beq_iff_eq] at hzero
        have hevents : s.events (.commitRead k)
            = [.call .consumer (.commitRead k), .reply .consumer (.count 0)] := by
          simp [events, replied, Act.called, Act.party, hzero]
        cases hstep
        refine ⟨⟨hinv', h.producer, trivial⟩, ?_⟩
        refine moves_of_consumer (a := { s.abs with queue := s.abs.queue.drop 0, offered := none }) rfl rfl rfl
          ?_ hevents ?_
        . simp [abs, ConsumerPc.offered]
        . apply Moves.once hst
          rw [hzero]
          apply Queue.Step.commitRead s.abs view.size.toNat 0
          . simp [abs, hpc, ConsumerPc.offered]
          . apply Nat.zero_le
      . next hsome =>
        rw [Bool.or_self, beq_iff_eq] at hsome
        have hevents : s.events (.commitRead k) = [.call .consumer (.commitRead k)] := by
          simp [events, replied, Act.called, Act.party, hcan, hsome]
        cases hstep
        refine ⟨⟨hinv', h.producer, trivial⟩, ?_⟩
        refine moves_of_consumer (a := s.abs) rfl rfl rfl ?_ hevents ?_
        . simp [abs, hpc, ConsumerPc.offered]
        . apply Moves.start hst
    . simp at hstep
  . simp at hstep

theorem Observed.step {act : Act} (h : s.Observed) (hstep : s.step act = some (s', acc)) : s.Observes act s' := by
  cases act with
  | put c => exact h.put hstep
  | prepareWrite n => exact h.prepareWrite hstep
  | writeView i c => exact h.writeView hstep
  | commitWrite k => exact h.commitWrite hstep
  | produce => exact h.produce hstep
  | pop => exact h.pop hstep
  | prepareRead n => exact h.prepareRead hstep
  | readView i => exact h.readView hstep
  | commitRead k => exact h.commitRead hstep
  | consume => exact h.consume hstep

theorem Observed.observe (h : s.Observed) {act : Act} {es : List HistoryEvent}
    (hstep : s.observe act = some (s', es))
    : s'.Observed ∧ Moves Queue.Step s.abs s.status es s'.abs s'.status := by
  rcases Option.map_eq_some_iff.mp hstep with ⟨⟨s₁, acc⟩, hact, heq⟩
  rw [Prod.mk.injEq] at heq
  rcases heq with ⟨rfl, rfl⟩
  have hobserves := h.step hact
  exact ⟨hobserves.observed, hobserves.moves⟩

end Steps

theorem Observed.fresh {rb : RingBuffer} (hfresh : rb.Fresh) : (fresh rb).Observed :=
  ⟨.fresh hfresh, trivial, trivial⟩

end Spsc

/--
Whatever the interleaving of the two sides, `put`, `pop` and the prepare and commit operations have the
results of a bounded byte queue that does each of them at one moment between its call and its reply.
-/
theorem spsc_linearizable {rb : RingBuffer} (hfresh : rb.Fresh) {trace : List (Act × List HistoryEvent)}
    {s : Spsc} (hrun : Transition.Run (Transition.ofStep Spsc.observe) (.fresh rb) trace s)
    : Linearizable Queue.Step (Queue.empty rb.capacity.toNat) (trace.flatMap Prod.snd) := by
  apply Linearizability.linearizable_of_mapping Spsc.abs Spsc.status (Spsc.Observed.fresh hfresh) _ _ hrun
  . intro t
    cases t <;> rfl
  . intro s₁ act es s₂ hinv hstep
    exact hinv.observe hstep

-- the `put` that fails overlaps the `pop` that makes room, and `prepare_read` the `commit_write` that it misses
theorem spsc_linearizable_overlap
    : let acts : List Act := [.put 7, .produce, .produce, .produce, .produce, .put 8, .produce, .produce, .produce,
        .produce, .put 9, .produce, .pop, .consume, .consume, .consume, .consume, .produce, .prepareWrite 2, .produce,
        .produce, .writeView 0 9, .commitWrite 1, .prepareRead 2, .consume, .produce, .produce, .consume,
        .readView 0, .commitRead 1, .consume, .consume]
      ∃ outs s, Transition.Run (Transition.ofStep Spsc.observe) (.fresh (ofSize 2 (some (.replicate 2 0))))
          (acts.zip outs) s
        ∧ (acts.zip outs).flatMap Prod.snd = [.call .producer (.put 7), .reply .producer (.flag true),
            .call .producer (.put 8), .reply .producer (.flag true), .call .producer (.put 9), .call .consumer .pop,
            .reply .consumer (.byte (some 7)), .reply .producer (.flag false), .call .producer (.prepareWrite 2),
            .reply .producer (.count 1), .call .producer (.writeView 0 9), .reply .producer .done,
            .call .producer (.commitWrite 1), .call .consumer (.prepareRead 2), .reply .producer (.count 1),
            .reply .consumer (.count 1), .call .consumer (.readView 0), .reply .consumer (.byte (some 8)),
            .call .consumer (.commitRead 1), .reply .consumer (.count 1)]
        ∧ Linearizable Queue.Step (Queue.empty 2) ((acts.zip outs).flatMap Prod.snd) := by
  intro acts
  have hexec : ((Transition.exec Spsc.observe (.fresh (ofSize 2 (some (.replicate 2 0)))) acts).map
      fun r => (acts.zip r.2).flatMap Prod.snd) = some _ := rfl
  rcases Option.map_eq_some_iff.mp hexec with ⟨⟨s, outs⟩, hexec, hhistory⟩
  have hrun := Transition.run_of_exec hexec
  exact ⟨outs, s, hrun, hhistory, spsc_linearizable (.ofSize 2 _) hrun⟩

end RingBuffer

end Sfap
