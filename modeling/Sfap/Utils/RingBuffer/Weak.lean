import Sfap.Lib.ReleaseAcquire
import Sfap.Utils.RingBuffer.Exclusivity

/-!
This module contains the shared ring buffer under the memory orders that it asks for: the stores of `head_`
and `tail_` are release stores, and a load of the other side's counter is an acquire load that may read any
value that is not older than what this side has read before.
-/

namespace Sfap

namespace RingBuffer

open ReleaseAcquire (Action Event RaceFree HappensBefore Acquired stores)

inductive Counter where
  | head
  | tail
  deriving DecidableEq, Repr

def Party.counter : Party → Counter
  | .producer => .head
  | .consumer => .tail

abbrev MemoryEvent := Event Party Nat Counter

structure Weak where
  spsc : Spsc
  heads : List SizeT
  tails : List SizeT
  seenHead : Nat
  seenTail : Nat

-- what the next step of `produce` does to memory, unless it is an acquire load
def ProducerPc.action (rb : RingBuffer) : ProducerPc → Option (Action Nat Counter)
  | .idle => none
  | .putTail _ => none
  -- a relaxed load of the own counter
  | .putHead _ _ => some .internal
  | .putByte _ h => some (.write (h &&& rb.mask).toNat)
  | .putStore _ _ => some (.store .head)
  | .prepareTail _ => none
  | .prepareHead _ _ => some .internal
  | .holding _ => none
  | .commitHead _ => some .internal
  | .commitStore _ _ => some (.store .head)

def ConsumerPc.action (rb : RingBuffer) : ConsumerPc → Option (Action Nat Counter)
  | .idle => none
  | .popHead => none
  | .popTail _ => some .internal
  | .popByte t => some (.read (t &&& rb.mask).toNat)
  | .popStore _ _ => some (.store .tail)
  | .prepareHead _ => none
  | .prepareTail _ _ => some .internal
  | .holding _ => none
  | .commitTail _ _ => some .internal
  | .commitStore _ _ _ => some (.store .tail)

def ProducerPc.atRest : ProducerPc → Bool
  | .idle => true
  | .holding _ => true
  | _ => false

def ConsumerPc.atRest : ConsumerPc → Bool
  | .idle => true
  | .holding _ => true
  | _ => false

namespace Weak

def fresh (rb : RingBuffer) : Weak := ⟨.fresh rb, [rb.head], [rb.tail], 0, 0⟩

inductive Input where
  | act (a : Act)
  | acquireTail (k : Nat)
  | acquireHead (k : Nat)
  -- `size()`, called by one of the sides between two operations
  | sizeByProducer (k : Nat)
  | sizeByConsumer (k : Nat)

def event (s : Weak) (a : Act) : Option MemoryEvent :=
  match a with
  | .produce => (s.spsc.producer.action s.spsc.rb).map (⟨.producer, ·⟩)
  | .consume => (s.spsc.consumer.action s.spsc.rb).map (⟨.consumer, ·⟩)
  | .writeView i _ =>
    match s.spsc.producer with
    | .holding view => view.slots[i]?.map (⟨.producer, .write ·⟩)
    | _ => none
  | .readView i =>
    match s.spsc.consumer with
    | .holding view => view.slots[i]?.map (⟨.consumer, .read ·⟩)
    | _ => none
  | .put _ => some ⟨.producer, .internal⟩
  | .prepareWrite _ => some ⟨.producer, .internal⟩
  | .commitWrite _ => some ⟨.producer, .internal⟩
  | .pop => some ⟨.consumer, .internal⟩
  | .prepareRead _ => some ⟨.consumer, .internal⟩
  | .commitRead _ => some ⟨.consumer, .internal⟩

-- a release store appends to what has been stored
def record (s : Weak) (spsc : Spsc) (a : Action Nat Counter) : Weak :=
  { s with
    spsc := spsc
    heads := if a = .store .head then s.heads ++ [spsc.rb.head] else s.heads
    tails := if a = .store .tail then s.tails ++ [spsc.rb.tail] else s.tails
  }

def step (s : Weak) (input : Input) : Option (Weak × MemoryEvent × Option SizeT) :=
  match input with
  | .act a =>
    match s.event a, s.spsc.step a with
    | some e, some (spsc, _) => some (s.record spsc e.action, e, none)
    | _, _ => none
  | .acquireTail k =>
    match s.spsc.producer, s.tails[k]? with
    | .putTail c, some t =>
      if s.seenTail ≤ k then
        some ({ s with spsc := { s.spsc with producer := .putHead c t }, seenTail := k },
          ⟨.producer, .load .tail k⟩, none)
      else
        none
    | .prepareTail n, some t =>
      if s.seenTail ≤ k then
        some ({ s with spsc := { s.spsc with producer := .prepareHead n t }, seenTail := k },
          ⟨.producer, .load .tail k⟩, none)
      else
        none
    | _, _ => none
  | .acquireHead k =>
    match s.spsc.consumer, s.heads[k]? with
    | .popHead, some h =>
      if s.seenHead ≤ k then
        some ({ s with spsc := { s.spsc with consumer := .popTail h }, seenHead := k },
          ⟨.consumer, .load .head k⟩, none)
      else
        none
    | .prepareHead n, some h =>
      if s.seenHead ≤ k then
        some ({ s with spsc := { s.spsc with consumer := .prepareTail n h }, seenHead := k },
          ⟨.consumer, .load .head k⟩, none)
      else
        none
    | _, _ => none
  | .sizeByProducer k =>
    match s.tails[k]? with
    | some t =>
      if s.spsc.producer.atRest && s.seenTail ≤ k then
        some ({ s with seenTail := k }, ⟨.producer, .load .tail k⟩, some (s.spsc.rb.head - t))
      else
        none
    | none => none
  | .sizeByConsumer k =>
    match s.heads[k]? with
    | some h =>
      if s.spsc.consumer.atRest && s.seenHead ≤ k then
        some ({ s with seenHead := k }, ⟨.consumer, .load .head k⟩, some (h - s.spsc.rb.tail))
      else
        none
    | none => none

end Weak

-- `seen` is the last value of `tail_` that the producer has read
def ProducerPc.Within (capacity published : Nat) (draft : List Byte) (seen : Nat) : ProducerPc → Prop
  | .putHead _ t => t = .ofNat seen
  | .putByte _ _ => published < seen + capacity
  | .putStore _ _ => published < seen + capacity
  | .prepareHead _ t => t = .ofNat seen
  | .holding _ => published + draft.length ≤ seen + capacity
  | .commitHead _ => published + draft.length ≤ seen + capacity
  | .commitStore _ _ => published + draft.length ≤ seen + capacity
  | _ => True

-- `seen` is the last value of `head_` that the consumer has read
def ConsumerPc.Within (consumed seen : Nat) : ConsumerPc → Prop
  | .popTail h => h = .ofNat seen
  | .popByte _ => consumed < seen
  | .popStore _ _ => consumed < seen
  | .prepareTail _ h => h = .ofNat seen
  | .holding view => consumed + view.size.toNat ≤ seen
  | .commitTail view _ => consumed + view.size.toNat ≤ seen
  | .commitStore view _ _ => consumed + view.size.toNat ≤ seen
  | _ => True

def Party.other : Party → Party
  | .producer => .consumer
  | .consumer => .producer

def Spsc.progress (s : Spsc) : Party → Nat
  | .producer => s.published.length
  | .consumer => s.consumed.length

-- how far a side may go once it has read that the other one has come to `seen`
def limit (capacity : Nat) : Party → Nat → Nat
  | .producer, seen => seen + capacity
  | .consumer, seen => seen

def Spsc.Within (s : Spsc) (t : Party) (seen : Nat) : Prop :=
  match t with
  | .producer => s.producer.Within s.rb.capacity.toNat s.published.length s.draft seen
  | .consumer => s.consumer.Within s.consumed.length seen

structure Moves (t : Party) (s s' : Spsc) (seen : Nat) (a : Action Nat Counter) : Prop where
  capacity : s'.rb.capacity = s.rb.capacity
  other : s'.progress t.other = s.progress t.other
  otherWithin : ∀ seen', s.Within t.other seen' → s'.Within t.other seen'
  within : s'.Within t seen
  room : s'.progress t ≤ limit s.rb.capacity.toNat t seen
  action : (a = .internal ∧ s'.progress t = s.progress t)
    ∨ (a = .store t.counter ∧ s.progress t ≤ s'.progress t)
    ∨ ∃ q, a.object = some (q % s.rb.capacity.toNat) ∧ s.progress t ≤ q
      ∧ q < limit s.rb.capacity.toNat t seen ∧ s'.progress t = s.progress t

section Steps

variable {s s' : Spsc} {seen : Nat} {a : Action Nat Counter} {acc : Access}

theorem moves_producer (hroom : s.published.length ≤ seen + s.rb.capacity.toNat) {pc : ProducerPc}
    {draft : List Byte} (hwithin : pc.Within s.rb.capacity.toNat s.published.length draft seen)
    : Moves .producer s { s with producer := pc, draft := draft } seen .internal :=
  ⟨rfl, rfl, fun _ h => h, hwithin, hroom, .inl ⟨rfl, rfl⟩⟩

theorem moves_consumer (hroom : s.consumed.length ≤ seen) {pc : ConsumerPc}
    (hwithin : pc.Within s.consumed.length seen)
    : Moves .consumer s { s with consumer := pc } seen .internal :=
  ⟨rfl, rfl, fun _ h => h, hwithin, hroom, .inl ⟨rfl, rfl⟩⟩

theorem moves_write (hroom : s.published.length ≤ seen + s.rb.capacity.toNat) {pc : ProducerPc}
    {draft : List Byte} (hwithin : pc.Within s.rb.capacity.toNat s.published.length draft seen) {q slot : Nat}
    (c : Byte) (hslot : slot = q % s.rb.capacity.toNat) (hle : s.published.length ≤ q)
    (hlt : q < seen + s.rb.capacity.toNat)
    : Moves .producer s { s with rb := s.rb.storeByte slot c, producer := pc, draft := draft } seen
        (.write slot) := by
  refine ⟨rfl, rfl, fun _ h => h, hwithin, hroom, .inr (.inr ⟨q, ?_, hle, hlt, rfl⟩)⟩
  rw [hslot]
  rfl

theorem moves_read (hroom : s.consumed.length ≤ seen) {pc : ConsumerPc}
    (hwithin : pc.Within s.consumed.length seen) {p slot : Nat} (hslot : slot = p % s.rb.capacity.toNat)
    (hle : s.consumed.length ≤ p) (hlt : p < seen)
    : Moves .consumer s { s with consumer := pc } seen (.read slot) := by
  refine ⟨rfl, rfl, fun _ h => h, hwithin, hroom, .inr (.inr ⟨p, ?_, hle, hlt, rfl⟩)⟩
  rw [hslot]
  rfl

theorem moves_publish {rb : RingBuffer} (hcapacity : rb.capacity = s.rb.capacity) {bs : List Byte}
    (hle : s.published.length + bs.length ≤ seen + s.rb.capacity.toNat)
    : Moves .producer s { s with rb := rb, producer := .idle, published := s.published ++ bs } seen
        (.store .head) := by
  refine ⟨hcapacity, rfl, fun _ h => h, trivial, ?_, .inr (.inl ⟨rfl, ?_⟩)⟩
  . dsimp only [Spsc.progress, limit]
    rw [List.length_append]
    exact hle
  . dsimp only [Spsc.progress]
    rw [List.length_append]
    apply Nat.le_add_right

theorem moves_takeOut {rb : RingBuffer} (hcapacity : rb.capacity = s.rb.capacity) {bs : List Byte}
    (hle : s.consumed.length + bs.length ≤ seen)
    : Moves .consumer s { s with rb := rb, consumer := .idle, consumed := s.consumed ++ bs } seen
        (.store .tail) := by
  refine ⟨hcapacity, rfl, ?_, trivial, ?_, .inr (.inl ⟨rfl, ?_⟩)⟩
  . intro seen' hwithin
    dsimp only [Spsc.Within, Party.other] at hwithin ⊢
    rw [hcapacity]
    exact hwithin
  . dsimp only [Spsc.progress, limit]
    rw [List.length_append]
    exact hle
  . dsimp only [Spsc.progress]
    rw [List.length_append]
    apply Nat.le_add_right

theorem moves_produce (hinv : s.Inv) (hseen : seen ≤ s.consumed.length)
    (hroom : s.published.length ≤ seen + s.rb.capacity.toNat)
    (hwithin : s.producer.Within s.rb.capacity.toNat s.published.length s.draft seen)
    (ha : s.producer.action s.rb = some a) (hstep : s.produce = some (s', acc))
    : Moves .producer s s' seen a := by
  have hshared := hinv.shared
  have hok := hinv.producer
  have hle := hshared.le
  have hused : (s.rb.head - UInt64.ofNat seen).toNat = s.published.length - seen := by
    have := UInt64.toNat_lt s.rb.capacity
    rw [hshared.head_eq, Word.distance_ofNat] <;> omega
  unfold Spsc.produce at hstep
  cases hpc : s.producer with
  | idle => simp [hpc] at hstep
  | holding view => simp [hpc] at hstep
  | putTail c => simp [hpc, ProducerPc.action] at ha
  | prepareTail n => simp [hpc, ProducerPc.action] at ha
  | putHead c t =>
    rw [hpc] at hstep ha hwithin
    cases ha
    cases hwithin
    dsimp only at hstep
    split at hstep
    . cases hstep
      exact ⟨rfl, rfl, fun _ h => h, trivial, hroom, .inl ⟨rfl, rfl⟩⟩
    . next hfree =>
      cases hstep
      refine ⟨rfl, rfl, fun _ h => h, ?_, hroom, .inl ⟨rfl, rfl⟩⟩
      rw [beq_iff_eq, Word.eq_zero_iff_toNat, Word.toNat_sub_of_toNat_le (by omega), hused] at hfree
      change s.published.length < seen + s.rb.capacity.toNat
      omega
  | putByte c h =>
    rw [hpc] at hstep ha hwithin hok
    rcases hok with ⟨hv, rfl, _⟩
    cases ha
    cases hstep
    have hone := hshared.slots_head hv 1
    rw [Circular.slots_one, Circular.slots_one, List.cons.injEq] at hone
    have hslot : (s.rb.head &&& s.rb.mask).toNat = s.published.length % s.rb.capacity.toNat := by
      rw [s.rb.toNat_and_mask hv, hone.1]
    have hlt : s.published.length < seen + s.rb.capacity.toNat := hwithin
    apply moves_write hroom _ c hslot (Nat.le_refl _) hlt
    exact hlt
  | putStore c h =>
    rw [hpc] at hstep ha hwithin
    cases ha
    cases hstep
    apply moves_publish
    . rfl
    . exact hwithin
  | prepareHead n t =>
    rw [hpc] at hstep ha hwithin hok
    rcases hok with ⟨hv, hsnapshot⟩
    cases ha
    cases hwithin
    have hslots := (reserve hsnapshot hshared hv n).1
    simp only [prepareWriteAt_snd, Option.some.injEq, Prod.mk.injEq] at hstep
    rcases hstep with ⟨rfl, _⟩
    refine ⟨rfl, rfl, fun _ h => h, ?_, hroom, .inl ⟨rfl, rfl⟩⟩
    have hsize : (s.rb.prepareWriteAt (.ofNat seen) s.rb.head n).1.size.toNat
        ≤ s.rb.capacity.toNat - (s.published.length - seen) := by
      rw [size_prepareWriteAt, Word.toNat_min, toNat_availableW, Word.toNat_sub_of_toNat_le (by omega), hused]
      omega
    dsimp only [Spsc.Within, ProducerPc.Within]
    rw [Circular.length_read, hslots, Circular.length_slots, capacity_producer]
    omega
  | commitHead can =>
    rw [hpc] at hstep ha hwithin
    cases ha
    cases hstep
    exact ⟨rfl, rfl, fun _ h => h, hwithin, hroom, .inl ⟨rfl, rfl⟩⟩
  | commitStore can newH =>
    rw [hpc] at hstep ha hwithin
    cases ha
    cases hstep
    have hwithin : s.published.length + s.draft.length ≤ seen + s.rb.capacity.toNat := hwithin
    apply moves_publish
    . rfl
    . rw [List.length_take]
      omega

theorem moves_put (hroom : s.published.length ≤ seen + s.rb.capacity.toNat) {c : Byte}
    (hstep : s.step (.put c) = some (s', acc))
    : Moves .producer s s' seen .internal := by
  simp only [Spsc.step] at hstep
  split at hstep
  . next hpc =>
    split at hstep
    . cases hstep
      refine ⟨rfl, rfl, fun _ h => h, ?_, hroom, .inl ⟨rfl, rfl⟩⟩
      dsimp only [Spsc.Within]
      rw [hpc]
      trivial
    . cases hstep
      apply moves_producer hroom
      trivial
  . simp at hstep

theorem moves_prepareWrite (hroom : s.published.length ≤ seen + s.rb.capacity.toNat) {n : SizeT}
    (hstep : s.step (.prepareWrite n) = some (s', acc))
    : Moves .producer s s' seen .internal := by
  simp only [Spsc.step] at hstep
  split at hstep
  . split at hstep
    . cases hstep
      apply moves_producer hroom
      exact hroom
    . cases hstep
      apply moves_producer hroom
      trivial
  . simp at hstep

theorem moves_commitWrite (hroom : s.published.length ≤ seen + s.rb.capacity.toNat)
    (hwithin : s.producer.Within s.rb.capacity.toNat s.published.length s.draft seen) {k : SizeT}
    (hstep : s.step (.commitWrite k) = some (s', acc))
    : Moves .producer s s' seen .internal := by
  simp only [Spsc.step] at hstep
  split at hstep
  . next view hpc =>
    rw [hpc] at hwithin
    split at hstep
    . split at hstep
      . cases hstep
        apply moves_producer hroom
        trivial
      . cases hstep
        apply moves_producer hroom
        exact hwithin
    . simp at hstep
  . simp at hstep

theorem moves_writeView (hinv : s.Inv) (hroom : s.published.length ≤ seen + s.rb.capacity.toNat)
    (hwithin : s.producer.Within s.rb.capacity.toNat s.published.length s.draft seen) {i : Nat} {c : Byte}
    (hstep : s.step (.writeView i c) = some (s', acc))
    : ∃ view slot, s.producer = .holding view ∧ view.slots[i]? = some slot
        ∧ Moves .producer s s' seen (.write slot) := by
  have hok := hinv.producer
  simp only [Spsc.step] at hstep
  split at hstep
  . next view hpc =>
    rw [hpc] at hwithin hok
    have hwithin : s.published.length + s.draft.length ≤ seen + s.rb.capacity.toNat := hwithin
    rcases hok with ⟨hslots, hlen, _⟩
    split at hstep
    . next hi =>
      cases hstep
      have hi' : i < s.draft.length := by
        rw [hslots, Circular.length_slots] at hi
        omega
      refine ⟨view, _, hpc, List.getElem?_eq_getElem hi, ?_⟩
      apply moves_write hroom _ c _ (Nat.le_add_right s.published.length i)
      . omega
      . rw [hpc]
        dsimp only [ProducerPc.Within]
        rw [List.length_set]
        exact hwithin
      . simp only [hslots, Circular.getElem_slots]
    . simp at hstep
  . simp at hstep

theorem moves_consume (hinv : s.Inv) (hseen : seen ≤ s.published.length)
    (hroom : s.consumed.length ≤ seen) (hwithin : s.consumer.Within s.consumed.length seen)
    (ha : s.consumer.action s.rb = some a) (hstep : s.consume = some (s', acc))
    : Moves .consumer s s' seen a := by
  have hshared := hinv.shared
  have hok := hinv.consumer
  have havail : (UInt64.ofNat seen - s.rb.tail).toNat = seen - s.consumed.length := by
    have := UInt64.toNat_lt s.rb.capacity
    have := hshared.room
    rw [hshared.tail_eq, Word.distance_ofNat] <;> omega
  unfold Spsc.consume at hstep
  cases hpc : s.consumer with
  | idle => simp [hpc] at hstep
  | holding view => simp [hpc] at hstep
  | popHead => simp [hpc, ConsumerPc.action] at ha
  | prepareHead n => simp [hpc, ConsumerPc.action] at ha
  | popTail h =>
    rw [hpc] at hstep ha hwithin
    cases ha
    cases hwithin
    dsimp only at hstep
    split at hstep
    . cases hstep
      apply moves_consumer hroom
      trivial
    . next hne =>
      cases hstep
      apply moves_consumer hroom
      rw [beq_iff_eq, Word.eq_zero_iff_toNat, havail] at hne
      change s.consumed.length < seen
      omega
  | popByte t =>
    rw [hpc] at hstep ha hwithin hok
    rcases hok with ⟨hv, rfl, _⟩
    cases ha
    cases hstep
    have hone := hshared.slots_tail hv 1
    rw [Circular.slots_one, Circular.slots_one, List.cons.injEq] at hone
    have hslot : (s.rb.tail &&& s.rb.mask).toNat = s.consumed.length % s.rb.capacity.toNat := by
      rw [s.rb.toNat_and_mask hv, hone.1]
    have hlt : s.consumed.length < seen := hwithin
    apply moves_read hroom _ hslot (Nat.le_refl _) hlt
    exact hlt
  | popStore t c =>
    rw [hpc] at hstep ha hwithin
    cases ha
    cases hstep
    apply moves_takeOut
    . rfl
    . exact hwithin
  | prepareTail n h =>
    rw [hpc] at hstep ha hwithin
    cases ha
    cases hwithin
    simp only [prepareReadAt_snd, Option.some.injEq, Prod.mk.injEq] at hstep
    rcases hstep with ⟨rfl, _⟩
    refine ⟨rfl, rfl, fun _ h => h, ?_, hroom, .inl ⟨rfl, rfl⟩⟩
    have hsize : (s.rb.prepareReadAt (.ofNat seen) s.rb.tail n).1.size.toNat ≤ seen - s.consumed.length := by
      rw [size_prepareReadAt, Word.toNat_min, toNat_availR, havail]
      omega
    change s.consumed.length + (s.rb.prepareReadAt (.ofNat seen) s.rb.tail n).1.size.toNat ≤ seen
    omega
  | commitTail view can =>
    rw [hpc] at hstep ha hwithin
    cases ha
    cases hstep
    apply moves_consumer hroom
    exact hwithin
  | commitStore view can newT =>
    rw [hpc] at hstep ha hwithin hok
    rcases hok with ⟨_, _, hcan, _⟩
    cases ha
    cases hstep
    have hwithin : s.consumed.length + view.size.toNat ≤ seen := hwithin
    apply moves_takeOut
    . rfl
    . rw [Circular.length_read, List.length_take]
      omega

theorem moves_pop (hroom : s.consumed.length ≤ seen) (hstep : s.step .pop = some (s', acc))
    : Moves .consumer s s' seen .internal := by
  simp only [Spsc.step] at hstep
  split at hstep
  . next hpc =>
    split at hstep
    . cases hstep
      refine ⟨rfl, rfl, fun _ h => h, ?_, hroom, .inl ⟨rfl, rfl⟩⟩
      dsimp only [Spsc.Within]
      rw [hpc]
      trivial
    . cases hstep
      apply moves_consumer hroom
      trivial
  . simp at hstep

theorem moves_prepareRead (hroom : s.consumed.length ≤ seen) {n : SizeT}
    (hstep : s.step (.prepareRead n) = some (s', acc))
    : Moves .consumer s s' seen .internal := by
  simp only [Spsc.step] at hstep
  split at hstep
  . split at hstep
    . cases hstep
      apply moves_consumer hroom
      exact hroom
    . cases hstep
      apply moves_consumer hroom
      trivial
  . simp at hstep

theorem moves_commitRead (hroom : s.consumed.length ≤ seen)
    (hwithin : s.consumer.Within s.consumed.length seen) {k : SizeT}
    (hstep : s.step (.commitRead k) = some (s', acc))
    : Moves .consumer s s' seen .internal := by
  simp only [Spsc.step] at hstep
  split at hstep
  . next view hpc =>
    rw [hpc] at hwithin
    split at hstep
    . split at hstep
      . cases hstep
        apply moves_consumer hroom
        trivial
      . cases hstep
        apply moves_consumer hroom
        exact hwithin
    . simp at hstep
  . simp at hstep

theorem moves_readView (hinv : s.Inv) (hroom : s.consumed.length ≤ seen)
    (hwithin : s.consumer.Within s.consumed.length seen) {i : Nat}
    (hstep : s.step (.readView i) = some (s', acc))
    : ∃ view slot, s.consumer = .holding view ∧ view.slots[i]? = some slot
        ∧ Moves .consumer s s' seen (.read slot) := by
  have hok := hinv.consumer
  simp only [Spsc.step] at hstep
  split at hstep
  . next view hpc =>
    have hwithin' := hwithin
    rw [hpc] at hwithin' hok
    have hwithin' : s.consumed.length + view.size.toNat ≤ seen := hwithin'
    rcases hok with ⟨hslots, _⟩
    split at hstep
    . next hi =>
      cases hstep
      have hi' : i < view.size.toNat := by
        rw [hslots, Circular.length_slots] at hi
        exact hi
      refine ⟨view, _, hpc, List.getElem?_eq_getElem hi, ?_⟩
      apply moves_read hroom hwithin _ (Nat.le_add_right s.consumed.length i)
      . omega
      . simp only [hslots, Circular.getElem_slots]
    . simp at hstep
  . simp at hstep

end Steps

end RingBuffer

end Sfap
