import Sfap.Utils.RingBuffer.Spsc

/-!
This module contains the invariant of the shared ring buffer and what follows from it: the producer
stays out of the slots that the consumer may read, and every published byte is delivered once.
-/

namespace Sfap

namespace RingBuffer

structure Shared (rb : RingBuffer) (published consumed : List Byte) : Prop where
  head_eq : rb.head = .ofNat published.length
  tail_eq : rb.tail = .ofNat consumed.length
  le : consumed.length ≤ published.length
  room : published.length ≤ consumed.length + rb.capacity.toNat
  stored : Circular.read rb.bytes
      (Circular.slots rb.capacity.toNat consumed.length (published.length - consumed.length))
    = published.drop consumed.length
  past : consumed = published.take consumed.length

structure Reserved (rb : RingBuffer) (head tail : Nat) (bs : List Byte) : Prop where
  room : head + bs.length ≤ tail + rb.capacity.toNat
  holds : Circular.read rb.bytes (Circular.slots rb.capacity.toNat head bs.length) = bs

-- `t` is a `tail_` that the consumer may have left behind since
def TailSnapshot (rb : RingBuffer) (head tail : Nat) (t : SizeT) : Prop :=
  ∃ old, old ≤ tail ∧ old ≤ head ∧ t = .ofNat old ∧ head ≤ old + rb.capacity.toNat

-- `h` is a `head_` that the producer may have left behind since
def HeadSnapshot (head tail : Nat) (h : SizeT) : Prop :=
  ∃ old, old ≤ head ∧ tail ≤ old ∧ h = .ofNat old

def ProducerPc.Ok (rb : RingBuffer) (head tail : Nat) (draft : List Byte) : ProducerPc → Prop
  | .idle => True
  | .putTail _ => rb.isValid = true
  | .putHead _ t => rb.isValid = true ∧ TailSnapshot rb head tail t
  | .putByte _ h => rb.isValid = true ∧ h = rb.head ∧ head < tail + rb.capacity.toNat
  | .putStore c h => rb.isValid = true ∧ h = rb.head ∧ Reserved rb head tail [c]
  | .prepareTail _ => rb.isValid = true
  | .prepareHead _ t => rb.isValid = true ∧ TailSnapshot rb head tail t
  | .holding view =>
    view.slots = Circular.slots rb.capacity.toNat head view.size.toNat
      ∧ draft.length = view.size.toNat ∧ Reserved rb head tail draft
  | .commitHead can => can.toNat ≤ draft.length ∧ Reserved rb head tail draft
  | .commitStore can newH =>
    can.toNat ≤ draft.length ∧ newH = can + rb.head ∧ Reserved rb head tail draft

def ConsumerPc.Ok (rb : RingBuffer) (published : List Byte) (tail : Nat) : ConsumerPc → Prop
  | .idle => True
  | .popHead => rb.isValid = true
  | .popTail h => rb.isValid = true ∧ HeadSnapshot published.length tail h
  | .popByte t => rb.isValid = true ∧ t = rb.tail ∧ tail < published.length
  | .popStore t c => t = rb.tail ∧ published[tail]? = some c
  | .prepareHead _ => rb.isValid = true
  | .prepareTail _ h => rb.isValid = true ∧ HeadSnapshot published.length tail h
  | .holding view =>
    view.slots = Circular.slots rb.capacity.toNat tail view.size.toNat
      ∧ tail + view.size.toNat ≤ published.length
  | .commitTail view can =>
    view.slots = Circular.slots rb.capacity.toNat tail view.size.toNat
      ∧ tail + view.size.toNat ≤ published.length ∧ can.toNat ≤ view.size.toNat
  | .commitStore view can newT =>
    view.slots = Circular.slots rb.capacity.toNat tail view.size.toNat
      ∧ tail + view.size.toNat ≤ published.length ∧ can.toNat ≤ view.size.toNat
      ∧ newT = rb.tail + can

structure Spsc.Inv (s : Spsc) : Prop where
  shared : s.rb.Shared s.published s.consumed
  producer : s.producer.Ok s.rb s.published.length s.consumed.length s.draft
  consumer : s.consumer.Ok s.rb s.published s.consumed.length

section Shared

variable {rb : RingBuffer} {published consumed : List Byte}

theorem Shared.length_lt (h : rb.Shared published consumed)
    : published.length - consumed.length < 2 ^ 64 := by
  have := UInt64.toNat_lt rb.capacity
  have := h.room
  omega

theorem Shared.size_eq (h : rb.Shared published consumed)
    : rb.size.toNat = published.length - consumed.length := by
  unfold size
  rw [h.head_eq, h.tail_eq]
  apply Word.distance_ofNat
  . exact h.le
  . exact h.length_lt

theorem slots_ofNat (hv : rb.isValid = true) (n len : Nat)
    : Circular.slots rb.capacity.toNat (UInt64.ofNat n).toNat len
        =
      Circular.slots rb.capacity.toNat n len := by
  rw [UInt64.toNat_ofNat']
  apply Circular.slots_mod
  apply rb.capacity_dvd hv

theorem Shared.slots_head (h : rb.Shared published consumed) (hv : rb.isValid = true) (len : Nat)
    : Circular.slots rb.capacity.toNat rb.head.toNat len
        =
      Circular.slots rb.capacity.toNat published.length len := by
  rw [h.head_eq]
  apply slots_ofNat hv

theorem Shared.slots_tail (h : rb.Shared published consumed) (hv : rb.isValid = true) (len : Nat)
    : Circular.slots rb.capacity.toNat rb.tail.toNat len
        =
      Circular.slots rb.capacity.toNat consumed.length len := by
  rw [h.tail_eq]
  apply slots_ofNat hv

theorem Shared.window_eq (h : rb.Shared published consumed)
    : rb.window
        =
      Circular.slots rb.capacity.toNat consumed.length (published.length - consumed.length) := by
  unfold window
  rw [h.size_eq]
  cases hv : rb.isValid with
  | true => apply h.slots_tail hv
  | false =>
    have hzero := rb.capacity_null hv
    have hroom := h.room
    rw [hzero] at hroom ⊢
    have : published.length - consumed.length = 0 := by omega
    rw [this]
    simp

theorem Shared.delivered (h : rb.Shared published consumed)
    : consumed ++ rb.content = published := by
  have hcontent : rb.content = Circular.read rb.bytes rb.window := by rfl
  rw [hcontent, h.window_eq, h.stored]
  nth_rewrite 1 [h.past]
  apply List.take_append_drop

theorem Shared.pendingW (h : rb.Shared published consumed) (p : SizeT)
    : (rb.producer rb.head p).Shared published consumed := by
  exact ⟨h.head_eq, h.tail_eq, h.le, h.room, h.stored, h.past⟩

theorem Shared.pendingR (h : rb.Shared published consumed) (p : SizeT)
    : (rb.consumer rb.tail p).Shared published consumed := by
  exact ⟨h.head_eq, h.tail_eq, h.le, h.room, h.stored, h.past⟩

theorem Shared.write (h : rb.Shared published consumed) {slot : Nat}
    (hslot : slot ∉ rb.window) (c : Byte)
    : (rb.storeByte slot c).Shared published consumed := by
  refine ⟨h.head_eq, h.tail_eq, h.le, h.room, ?_, h.past⟩
  rw [bytes_storeByte, capacity_storeByte, Circular.read_set_of_notMem]
  . exact h.stored
  . rw [← h.window_eq]
    exact hslot

theorem Reserved.disjoint {bs : List Byte} (hr : rb.Reserved published.length consumed.length bs)
    (h : rb.Shared published consumed)
    : (Circular.slots rb.capacity.toNat published.length bs.length).Disjoint rb.window := by
  have hdisj : (Circular.slots rb.capacity.toNat consumed.length
        (published.length - consumed.length)).Disjoint
      (Circular.slots rb.capacity.toNat
        (consumed.length + (published.length - consumed.length)) bs.length) := by
    apply Circular.disjoint_slots
    have := hr.room
    have := h.le
    omega
  rw [Nat.add_sub_cancel' h.le] at hdisj
  rw [h.window_eq]
  apply List.disjoint_comm.mp hdisj

theorem Shared.publish (h : rb.Shared published consumed) {bs : List Byte}
    (hr : rb.Reserved published.length consumed.length bs) (k : SizeT) (p : SizeT)
    (hk : k.toNat ≤ bs.length)
    : (rb.producer (rb.head + k) p).Shared (published ++ bs.take k.toNat) consumed := by
  have hle := h.le
  have hroom := hr.room
  have hlen : (published ++ bs.take k.toNat).length = published.length + k.toNat := by
    rw [List.length_append, List.length_take, Nat.min_eq_left hk]
  constructor
  . rw [hlen, UInt64.ofNat_add, UInt64.ofNat_toNat, head_producer, h.head_eq]
  . exact h.tail_eq
  . omega
  . rw [hlen, capacity_producer]
    omega
  . rw [hlen, capacity_producer, bytes_producer, Nat.sub_add_comm hle, Circular.slots_append,
      Circular.read_append, h.stored, Nat.add_sub_cancel' hle, List.drop_append_of_le_length hle]
    congr 1
    rw [← Circular.take_slots hk, ← Circular.take_read, hr.holds]
  . rw [List.take_append_of_le_length hle]
    exact h.past

theorem Shared.consume (h : rb.Shared published consumed) (k p : SizeT)
    (hk : consumed.length + k.toNat ≤ published.length)
    : (rb.consumer (rb.tail + k) p).Shared published
        (consumed ++ (published.drop consumed.length).take k.toNat) := by
  have hroom := h.room
  have hlen : (consumed ++ (published.drop consumed.length).take k.toNat).length
      = consumed.length + k.toNat := by
    rw [List.length_append, List.length_take, List.length_drop]
    omega
  constructor
  . exact h.head_eq
  . rw [hlen, UInt64.ofNat_add, UInt64.ofNat_toNat, tail_consumer, h.tail_eq]
  . omega
  . rw [hlen, capacity_consumer]
    omega
  . have hstored := congrArg (List.drop k.toNat) h.stored
    rw [Circular.drop_read, Circular.drop_slots (by omega), List.drop_drop] at hstored
    rw [hlen, capacity_consumer, bytes_consumer, ← hstored]
    congr 2
    omega
  . rw [hlen]
    nth_rewrite 1 [h.past]
    rw [List.take_add]

theorem Shared.getElem?_stored (h : rb.Shared published consumed) (i : Nat)
    (hi : consumed.length + i < published.length)
    : published[consumed.length + i]?
        =
      some (rb.loadByte ((consumed.length + i) % rb.capacity.toNat)) := by
  have hget := congrArg (fun bytes => bytes[i]?) h.stored
  rw [Circular.getElem?_read_slots _ (by omega), List.getElem?_drop] at hget
  exact hget.symm

theorem ConsumerPc.Ok.held_subset {pc : ConsumerPc}
    (hok : pc.Ok rb published consumed.length) (h : rb.Shared published consumed)
    : ∀ slot ∈ pc.held, slot ∈ rb.window := by
  have hprefix : ∀ view : View,
      view.slots = Circular.slots rb.capacity.toNat consumed.length view.size.toNat →
      consumed.length + view.size.toNat ≤ published.length →
      ∀ slot ∈ view.slots, slot ∈ rb.window := by
    intro view hslots hle slot hslot
    rw [h.window_eq, ← List.take_append_drop view.size.toNat (Circular.slots _ _ _),
      Circular.take_slots (by omega), ← hslots]
    apply List.mem_append_left _ hslot
  cases pc with
  | holding view => exact hprefix view hok.1 hok.2
  | commitTail view can => exact hprefix view hok.1 hok.2.1
  | commitStore view can newT => exact hprefix view hok.1 hok.2.1
  | _ => simp [ConsumerPc.held]

theorem Shared.tailSnapshot (h : rb.Shared published consumed)
    : TailSnapshot rb published.length consumed.length rb.tail := by
  exact ⟨_, Nat.le_refl _, h.le, h.tail_eq, h.room⟩

theorem Shared.headSnapshot (h : rb.Shared published consumed)
    : HeadSnapshot published.length consumed.length rb.head := by
  exact ⟨_, Nat.le_refl _, h.le, h.head_eq⟩

theorem TailSnapshot.used {t : SizeT}
    (ht : TailSnapshot rb published.length consumed.length t)
    (h : rb.Shared published consumed)
    : (rb.head - t).toNat ≤ rb.capacity.toNat
        ∧ published.length + (rb.capacity.toNat - (rb.head - t).toNat)
            ≤ consumed.length + rb.capacity.toNat := by
  have := UInt64.toNat_lt rb.capacity
  rcases ht with ⟨old, hle, hold, rfl, hroom⟩
  rw [h.head_eq, Word.distance_ofNat _ _ hold (by omega)]
  omega

theorem HeadSnapshot.available {h : SizeT}
    (hh : HeadSnapshot published.length consumed.length h)
    (hshared : rb.Shared published consumed)
    : consumed.length + (h - rb.tail).toNat ≤ published.length
        ∧ (h - rb.tail).toNat ≤ rb.capacity.toNat := by
  have := UInt64.toNat_lt rb.capacity
  have hroom := hshared.room
  rcases hh with ⟨old, hold, hle, rfl⟩
  rw [hshared.tail_eq, Word.distance_ofNat _ _ hle (by omega)]
  omega

theorem reserve {t : SizeT} (ht : TailSnapshot rb published.length consumed.length t)
    (h : rb.Shared published consumed) (hv : rb.isValid = true) (n : SizeT)
    : (rb.prepareWriteAt t rb.head n).1.slots
          = Circular.slots rb.capacity.toNat published.length
              (rb.prepareWriteAt t rb.head n).1.size.toNat
        ∧ published.length + (rb.prepareWriteAt t rb.head n).1.size.toNat
            ≤ consumed.length + rb.capacity.toNat := by
  rcases ht.used h with ⟨hused, hroom⟩
  have hsize : (rb.prepareWriteAt t rb.head n).1.size.toNat
      ≤ rb.capacity.toNat - (rb.head - t).toNat := by
    rw [size_prepareWriteAt, Word.toNat_min, toNat_availableW, Word.toNat_sub_of_toNat_le hused]
    omega
  constructor
  . rw [rb.slots_prepareWriteAt hv _ _ _ (by omega)]
    apply h.slots_head hv
  . omega

theorem offer {h : SizeT} (hh : HeadSnapshot published.length consumed.length h)
    (hshared : rb.Shared published consumed) (hv : rb.isValid = true) (n : SizeT)
    : (rb.prepareReadAt h rb.tail n).1.slots
          = Circular.slots rb.capacity.toNat consumed.length
              (rb.prepareReadAt h rb.tail n).1.size.toNat
        ∧ consumed.length + (rb.prepareReadAt h rb.tail n).1.size.toNat ≤ published.length := by
  rcases hh.available hshared with ⟨havail, hle⟩
  have hsize : (rb.prepareReadAt h rb.tail n).1.size.toNat ≤ (h - rb.tail).toNat := by
    rw [size_prepareReadAt, Word.toNat_min, toNat_availR]
    omega
  constructor
  . rw [rb.slots_prepareReadAt hv _ _ _ (by omega)]
    apply hshared.slots_tail hv
  . omega

theorem ConsumerPc.Ok.frame {pc : ConsumerPc} {tail : Nat} (hok : pc.Ok rb published tail)
    {rb' : RingBuffer} (hcapacity : rb'.capacity = rb.capacity) (htail : rb'.tail = rb.tail)
    (hvalid : rb'.isValid = rb.isValid) (more : List Byte)
    : pc.Ok rb' (published ++ more) tail := by
  have hlen : published.length ≤ (published ++ more).length := by simp
  have hsnapshot : ∀ h, HeadSnapshot published.length tail h →
      HeadSnapshot (published ++ more).length tail h := by
    intro h hold
    rcases hold with ⟨old, hold, hle, heq⟩
    exact ⟨old, by omega, hle, heq⟩
  cases pc with
  | idle => trivial
  | popHead => exact hvalid.trans hok
  | popTail h => exact ⟨hvalid.trans hok.1, hsnapshot h hok.2⟩
  | popByte t => exact ⟨hvalid.trans hok.1, htail ▸ hok.2.1, Nat.lt_of_lt_of_le hok.2.2 hlen⟩
  | popStore t c =>
    refine ⟨htail ▸ hok.1, ?_⟩
    have hlt := (List.getElem?_eq_some_iff.mp hok.2).1
    rw [List.getElem?_append_left hlt]
    exact hok.2
  | prepareHead n => exact hvalid.trans hok
  | prepareTail n h => exact ⟨hvalid.trans hok.1, hsnapshot h hok.2⟩
  | holding view => exact ⟨hcapacity ▸ hok.1, Nat.le_trans hok.2 hlen⟩
  | commitTail view can => exact ⟨hcapacity ▸ hok.1, Nat.le_trans hok.2.1 hlen, hok.2.2⟩
  | commitStore view can newT =>
    exact ⟨hcapacity ▸ hok.1, Nat.le_trans hok.2.1 hlen, hok.2.2.1, htail ▸ hok.2.2.2⟩

theorem ConsumerPc.Ok.idle {pc : ConsumerPc} {tail : Nat} (hok : pc.Ok rb published tail)
    {rb' : RingBuffer} (hcapacity : rb'.capacity = rb.capacity) (htail : rb'.tail = rb.tail)
    (hvalid : rb'.isValid = rb.isValid)
    : pc.Ok rb' published tail := by
  have := hok.frame hcapacity htail hvalid []
  rw [List.append_nil] at this
  exact this

theorem Reserved.frame {head tail tail' : Nat} {bs : List Byte} (hr : rb.Reserved head tail bs)
    (hle : tail ≤ tail') (x y : SizeT)
    : (rb.consumer x y).Reserved head tail' bs := by
  refine ⟨?_, hr.holds⟩
  have := hr.room
  rw [capacity_consumer]
  omega

theorem ProducerPc.Ok.frame {pc : ProducerPc} {head tail tail' : Nat} {draft : List Byte}
    (hok : pc.Ok rb head tail draft) (hle : tail ≤ tail') (x y : SizeT)
    : pc.Ok (rb.consumer x y) head tail' draft := by
  have hsnapshot : ∀ t, TailSnapshot rb head tail t →
      TailSnapshot (rb.consumer x y) head tail' t := by
    intro t hold
    rcases hold with ⟨old, hold, hrest⟩
    exact ⟨old, by omega, hrest⟩
  cases pc with
  | idle => trivial
  | putTail c => exact hok
  | putHead c t => exact ⟨hok.1, hsnapshot t hok.2⟩
  | putByte c h =>
    refine ⟨hok.1, hok.2.1, ?_⟩
    have := hok.2.2
    rw [capacity_consumer]
    omega
  | putStore c h => exact ⟨hok.1, hok.2.1, hok.2.2.frame hle x y⟩
  | prepareTail n => exact hok
  | prepareHead n t => exact ⟨hok.1, hsnapshot t hok.2⟩
  | holding view => exact ⟨hok.1, hok.2.1, hok.2.2.frame hle x y⟩
  | commitHead can => exact ⟨hok.1, hok.2.frame hle x y⟩
  | commitStore can newH => exact ⟨hok.1, hok.2.1, hok.2.2.frame hle x y⟩

end Shared

def Access.Safe (s : Spsc) : Access → Prop
  | .none => True
  | .wrote slot => slot ∉ s.rb.window ∧ slot ∉ s.consumer.held
  | .read pos c => s.published[pos]? = some c

namespace Spsc

variable {s s' : Spsc} {a : Access}

theorem Inv.wrote_safe (hinv : s.Inv) {slot : Nat} (h : slot ∉ s.rb.window)
    : (Access.wrote slot).Safe s := by
  constructor
  . exact h
  . intro hheld
    apply h (hinv.consumer.held_subset hinv.shared slot hheld)

theorem Inv.write (hinv : s.Inv) {slot : Nat} (hslot : slot ∉ s.rb.window) (c : Byte)
    {pc : ProducerPc} {draft : List Byte}
    (hpc : pc.Ok (s.rb.storeByte slot c) s.published.length s.consumed.length draft)
    : ({ s with rb := s.rb.storeByte slot c, producer := pc, draft := draft } : Spsc).Inv := by
  refine ⟨hinv.shared.write hslot c, hpc, ?_⟩
  apply hinv.consumer.idle
  . rfl
  . rfl
  . apply s.rb.isValid_storeByte slot c

theorem Inv.publish (hinv : s.Inv) {bs : List Byte}
    (hr : s.rb.Reserved s.published.length s.consumed.length bs) (k p : SizeT)
    (hk : k.toNat ≤ bs.length)
    : ({
        s with
        rb := s.rb.producer (s.rb.head + k) p
        producer := .idle
        published := s.published ++ bs.take k.toNat
      } : Spsc).Inv := by
  refine ⟨hinv.shared.publish hr k p hk, trivial, ?_⟩
  apply hinv.consumer.frame
  . rfl
  . rfl
  . rfl

theorem Inv.putByte {c : Byte} {head : SizeT} (hinv : s.Inv) (hpc : s.producer = .putByte c head)
    (h : s.produce = some (s', a))
    : s'.Inv ∧ a.Safe s := by
  rcases hinv with ⟨hshared, hproducer, hconsumer⟩
  have hinv : s.Inv := ⟨hshared, hproducer, hconsumer⟩
  unfold Spsc.produce at h
  rw [hpc] at h hproducer
  rcases hproducer with ⟨hv, rfl, hlt⟩
  have hslot : s.rb.head.toNat % s.rb.capacity.toNat ∉ s.rb.window := by
    apply s.rb.head_notMem
    have := hshared.size_eq
    have := hshared.le
    omega
  dsimp only at h
  rw [s.rb.toNat_and_mask hv] at h
  simp only [Option.some.injEq, Prod.mk.injEq] at h
  rcases h with ⟨rfl, rfl⟩
  refine ⟨hinv.write hslot c ⟨?_, rfl, ?_, ?_⟩, hinv.wrote_safe hslot⟩
  . rw [isValid_storeByte]
    exact hv
  . rw [capacity_storeByte, List.length_singleton]
    omega
  . have hbyte : s.rb.head.toNat % s.rb.capacity.toNat < s.rb.bytes.length := by
      rw [length_bytes]
      apply Nat.mod_lt
      apply s.rb.isValid_iff.mp hv
    have hone := hshared.slots_head hv 1
    rw [List.length_singleton, capacity_storeByte, bytes_storeByte, ← hone, Circular.slots_one]
    simp [Circular.read, hbyte]

theorem Inv.prepareHead {n t : SizeT} (hinv : s.Inv) (hpc : s.producer = .prepareHead n t)
    (h : s.produce = some (s', a))
    : s'.Inv ∧ a.Safe s := by
  rcases hinv with ⟨hshared, hproducer, hconsumer⟩
  unfold Spsc.produce at h
  rw [hpc] at h hproducer
  rcases hproducer with ⟨hv, hsnapshot⟩
  rcases reserve hsnapshot hshared hv n with ⟨hslots, hroom⟩
  simp only [prepareWriteAt_snd, Option.some.injEq, Prod.mk.injEq] at h
  rcases h with ⟨rfl, rfl⟩
  have hlen : (Circular.read s.rb.bytes (s.rb.prepareWriteAt t s.rb.head n).1.slots).length
      = (s.rb.prepareWriteAt t s.rb.head n).1.size.toNat := by
    rw [Circular.length_read, hslots, Circular.length_slots]
  refine ⟨⟨hshared.pendingW _, ⟨hslots, hlen, ?_, ?_⟩, hconsumer.idle rfl rfl rfl⟩, trivial⟩
  . rw [hlen]
    exact hroom
  . rw [hlen, hslots]
    rfl

theorem Inv.produce (hinv : s.Inv) (h : s.produce = some (s', a)) : s'.Inv ∧ a.Safe s := by
  have hstep := h
  rcases hinv with ⟨hshared, hproducer, hconsumer⟩
  have hinv : s.Inv := ⟨hshared, hproducer, hconsumer⟩
  unfold Spsc.produce at h
  split at h
  . simp at h
  . simp at h
  . next c hpc =>
    simp only [Option.some.injEq, Prod.mk.injEq] at h
    rcases h with ⟨rfl, rfl⟩
    rw [hpc] at hproducer
    exact ⟨⟨hshared, ⟨hproducer, hshared.tailSnapshot⟩, hconsumer⟩, trivial⟩
  . next c t hpc =>
    rw [hpc] at hproducer
    rcases hproducer with ⟨hv, hsnapshot⟩
    rcases hsnapshot.used hshared with ⟨hused, hroom⟩
    dsimp only at h
    split at h
    . simp only [Option.some.injEq, Prod.mk.injEq] at h
      rcases h with ⟨rfl, rfl⟩
      exact ⟨⟨hshared, trivial, hconsumer⟩, trivial⟩
    . next hfree =>
      simp only [Option.some.injEq, Prod.mk.injEq] at h
      rcases h with ⟨rfl, rfl⟩
      refine ⟨⟨hshared, ⟨hv, rfl, ?_⟩, hconsumer⟩, trivial⟩
      rw [beq_iff_eq, Word.eq_zero_iff_toNat, Word.toNat_sub_of_toNat_le hused] at hfree
      dsimp only
      omega
  . next c h' hpc => exact hinv.putByte hpc hstep
  . next c h' hpc =>
    rw [hpc] at hproducer
    rcases hproducer with ⟨hv, rfl, hr⟩
    simp only [Option.some.injEq, Prod.mk.injEq] at h
    rcases h with ⟨rfl, rfl⟩
    exact ⟨hinv.publish hr 1 s.rb.pendingW (by simp), trivial⟩
  . next n hpc =>
    simp only [Option.some.injEq, Prod.mk.injEq] at h
    rcases h with ⟨rfl, rfl⟩
    rw [hpc] at hproducer
    exact ⟨⟨hshared, ⟨hproducer, hshared.tailSnapshot⟩, hconsumer⟩, trivial⟩
  . next n t hpc => exact hinv.prepareHead hpc hstep
  . next can hpc =>
    rw [hpc] at hproducer
    simp only [Option.some.injEq, Prod.mk.injEq] at h
    rcases h with ⟨rfl, rfl⟩
    exact ⟨⟨hshared, ⟨hproducer.1, rfl, hproducer.2⟩, hconsumer⟩, trivial⟩
  . next can newH hpc =>
    rw [hpc] at hproducer
    rcases hproducer with ⟨hcan, rfl, hr⟩
    simp only [Option.some.injEq, Prod.mk.injEq] at h
    rcases h with ⟨rfl, rfl⟩
    rw [UInt64.add_comm]
    exact ⟨hinv.publish hr can _ hcan, trivial⟩

theorem Inv.takeOut (hinv : s.Inv) (k p : SizeT)
    (hk : s.consumed.length + k.toNat ≤ s.published.length)
    : ({
        s with
        rb := s.rb.consumer (s.rb.tail + k) p
        consumer := .idle
        consumed := s.consumed ++ (s.published.drop s.consumed.length).take k.toNat
      } : Spsc).Inv := by
  refine ⟨hinv.shared.consume k p hk, ?_, trivial⟩
  apply hinv.producer.frame
  simp

theorem Inv.consume (hinv : s.Inv) (h : s.consume = some (s', a)) : s'.Inv ∧ a.Safe s := by
  rcases hinv with ⟨hshared, hproducer, hconsumer⟩
  have hinv : s.Inv := ⟨hshared, hproducer, hconsumer⟩
  unfold Spsc.consume at h
  split at h
  . simp at h
  . simp at h
  . next hpc =>
    rw [hpc] at hconsumer
    simp only [Option.some.injEq, Prod.mk.injEq] at h
    rcases h with ⟨rfl, rfl⟩
    exact ⟨⟨hshared, hproducer, ⟨hconsumer, hshared.headSnapshot⟩⟩, trivial⟩
  . next h' hpc =>
    rw [hpc] at hconsumer
    rcases hconsumer with ⟨hv, hold⟩
    rcases hold.available hshared with ⟨havail, _⟩
    dsimp only at h
    split at h
    . simp only [Option.some.injEq, Prod.mk.injEq] at h
      rcases h with ⟨rfl, rfl⟩
      exact ⟨⟨hshared, hproducer, trivial⟩, trivial⟩
    . next hne =>
      simp only [Option.some.injEq, Prod.mk.injEq] at h
      rcases h with ⟨rfl, rfl⟩
      refine ⟨⟨hshared, hproducer, ⟨hv, rfl, ?_⟩⟩, trivial⟩
      rw [beq_iff_eq, Word.eq_zero_iff_toNat] at hne
      dsimp only
      omega
  . next t hpc =>
    rw [hpc] at hconsumer
    rcases hconsumer with ⟨hv, rfl, hlt⟩
    have hone := hshared.slots_tail hv 1
    rw [Circular.slots_one, Circular.slots_one, List.cons.injEq] at hone
    have hbyte := hshared.getElem?_stored 0 hlt
    rw [s.rb.toNat_and_mask hv, hone.1] at h
    simp only [Option.some.injEq, Prod.mk.injEq] at h
    rcases h with ⟨rfl, rfl⟩
    exact ⟨⟨hshared, hproducer, ⟨rfl, hbyte⟩⟩, hbyte⟩
  . next t c hpc =>
    rw [hpc] at hconsumer
    rcases hconsumer with ⟨rfl, hbyte⟩
    rcases List.getElem?_eq_some_iff.mp hbyte with ⟨hlt, hget⟩
    simp only [Option.some.injEq, Prod.mk.injEq] at h
    rcases h with ⟨rfl, rfl⟩
    have hone : (s.published.drop s.consumed.length).take (1 : SizeT).toNat = [c] := by
      rw [List.drop_eq_getElem_cons hlt, hget]
      rfl
    rw [← hone]
    exact ⟨hinv.takeOut 1 s.rb.pendingR hlt, trivial⟩
  . next n hpc =>
    rw [hpc] at hconsumer
    simp only [Option.some.injEq, Prod.mk.injEq] at h
    rcases h with ⟨rfl, rfl⟩
    exact ⟨⟨hshared, hproducer, ⟨hconsumer, hshared.headSnapshot⟩⟩, trivial⟩
  . next n h' hpc =>
    rw [hpc] at hconsumer
    rcases hconsumer with ⟨hv, hold⟩
    have hoffer := offer hold hshared hv n
    simp only [prepareReadAt_snd, Option.some.injEq, Prod.mk.injEq] at h
    rcases h with ⟨rfl, rfl⟩
    exact ⟨⟨hshared.pendingR _, hproducer.frame (Nat.le_refl _) _ _, hoffer⟩, trivial⟩
  . next view can hpc =>
    rw [hpc] at hconsumer
    rcases hconsumer with ⟨hslots, hle, hcan⟩
    simp only [Option.some.injEq, Prod.mk.injEq] at h
    rcases h with ⟨rfl, rfl⟩
    exact ⟨⟨hshared, hproducer, ⟨hslots, hle, hcan, rfl⟩⟩, trivial⟩
  . next view can newT hpc =>
    rw [hpc] at hconsumer
    rcases hconsumer with ⟨hslots, hle, hcan, rfl⟩
    simp only [Option.some.injEq, Prod.mk.injEq] at h
    rcases h with ⟨rfl, rfl⟩
    have hread : Circular.read s.rb.bytes (view.slots.take can.toNat)
        = (s.published.drop s.consumed.length).take can.toNat := by
      rw [← hshared.stored, Circular.take_read, Circular.take_slots (by omega), hslots,
        Circular.take_slots hcan]
    rw [hread]
    exact ⟨hinv.takeOut can _ (by omega), trivial⟩

theorem Inv.writeView (hinv : s.Inv) {view : View} (hpc : s.producer = .holding view) {i : Nat}
    (hi : i < view.slots.length) (c : Byte)
    : ({ s with rb := s.rb.storeByte view.slots[i] c, draft := s.draft.set i c } : Spsc).Inv
        ∧ (Access.wrote view.slots[i]).Safe s := by
  have hproducer := hinv.producer
  rw [hpc] at hproducer
  rcases hproducer with ⟨hslots, hlen, hr⟩
  have hmem : view.slots[i] ∈ Circular.slots s.rb.capacity.toNat s.published.length
      s.draft.length := by
    rw [hlen, ← hslots]
    apply List.getElem_mem
  have hslot := hr.disjoint hinv.shared hmem
  refine ⟨?_, hinv.wrote_safe hslot⟩
  have hroom := hr.room
  have hle := hinv.shared.le
  have hpos : 0 < s.rb.capacity.toNat := by
    rw [hslots, Circular.length_slots] at hi
    omega
  have hread : Circular.read (s.rb.bytes.set view.slots[i] c) view.slots = s.draft.set i c := by
    rw [Circular.read_set_of_nodup]
    . rw [hslots, ← hlen, hr.holds]
    . rw [hslots]
      apply Circular.nodup_slots
      omega
    . rw [length_bytes]
      apply Circular.lt_of_mem_slots hpos hmem
  have hok : (ProducerPc.holding view).Ok (s.rb.storeByte view.slots[i] c) s.published.length
      s.consumed.length (s.draft.set i c) := by
    refine ⟨hslots, ?_, ?_, ?_⟩
    . rw [List.length_set]
      exact hlen
    . rw [List.length_set]
      exact hr.room
    . rw [List.length_set, hlen, bytes_storeByte, capacity_storeByte, ← hslots]
      exact hread
  have hwrite := hinv.write hslot c hok
  rw [← hpc] at hwrite
  exact hwrite

theorem Inv.readView (hinv : s.Inv) {view : View} (hpc : s.consumer = .holding view) {i : Nat}
    (hi : i < view.slots.length)
    : s.published[s.consumed.length + i]? = some (s.rb.loadByte view.slots[i]) := by
  have hconsumer := hinv.consumer
  rw [hpc] at hconsumer
  rcases hconsumer with ⟨hslots, hle⟩
  have hlt : i < view.size.toNat := by
    rw [hslots, Circular.length_slots] at hi
    exact hi
  have hstored := hinv.shared.getElem?_stored i (by omega)
  simp only [hslots, Circular.getElem_slots]
  exact hstored

theorem Inv.step_put {c : Byte} (hinv : s.Inv)
    (h : s.step (.put c) = some (s', a))
    : s'.Inv ∧ a.Safe s := by
  rcases hinv with ⟨hshared, hproducer, hconsumer⟩
  have hinv : s.Inv := ⟨hshared, hproducer, hconsumer⟩
  simp only [Spsc.step] at h
  split at h
  . split at h
    . simp only [Option.some.injEq, Prod.mk.injEq] at h
      rcases h with ⟨rfl, rfl⟩
      exact ⟨hinv, trivial⟩
    . next hv =>
      simp only [Option.some.injEq, Prod.mk.injEq] at h
      rcases h with ⟨rfl, rfl⟩
      exact ⟨⟨hshared, by simpa [ProducerPc.Ok] using hv, hconsumer⟩, trivial⟩
  . simp at h

theorem Inv.step_prepareWrite {n : SizeT} (hinv : s.Inv)
    (h : s.step (.prepareWrite n) = some (s', a))
    : s'.Inv ∧ a.Safe s := by
  rcases hinv with ⟨hshared, hproducer, hconsumer⟩
  simp only [Spsc.step] at h
  split at h
  . split at h
    . simp only [Option.some.injEq, Prod.mk.injEq] at h
      rcases h with ⟨rfl, rfl⟩
      exact ⟨⟨hshared, ⟨rfl, rfl, hshared.room, rfl⟩, hconsumer⟩, trivial⟩
    . next hv =>
      simp only [Option.some.injEq, Prod.mk.injEq] at h
      rcases h with ⟨rfl, rfl⟩
      rw [Bool.or_eq_true, not_or] at hv
      exact ⟨⟨hshared, by simpa [ProducerPc.Ok] using hv.1, hconsumer⟩, trivial⟩
  . simp at h

theorem Inv.step_writeView {i : Nat} {c : Byte} (hinv : s.Inv)
    (h : s.step (.writeView i c) = some (s', a))
    : s'.Inv ∧ a.Safe s := by
  simp only [Spsc.step] at h
  split at h
  . next view hpc =>
    split at h
    . next hi =>
      simp only [Option.some.injEq, Prod.mk.injEq] at h
      rcases h with ⟨rfl, rfl⟩
      apply hinv.writeView hpc hi c
    . simp at h
  . simp at h

theorem Inv.step_commitWrite {k : SizeT} (hinv : s.Inv)
    (h : s.step (.commitWrite k) = some (s', a))
    : s'.Inv ∧ a.Safe s := by
  rcases hinv with ⟨hshared, hproducer, hconsumer⟩
  simp only [Spsc.step] at h
  split at h
  . next view hpc =>
    split at h
    . next hk =>
      split at h
      . simp only [Option.some.injEq, Prod.mk.injEq] at h
        rcases h with ⟨rfl, rfl⟩
        exact ⟨⟨hshared, trivial, hconsumer⟩, trivial⟩
      . simp only [Option.some.injEq, Prod.mk.injEq] at h
        rcases h with ⟨rfl, rfl⟩
        rw [hpc] at hproducer
        rw [UInt64.le_iff_toNat_le] at hk
        refine ⟨⟨hshared, ⟨?_, hproducer.2.2⟩, hconsumer⟩, trivial⟩
        rw [Word.toNat_min, hproducer.2.1]
        omega
    . simp at h
  . simp at h

theorem Inv.step_pop (hinv : s.Inv) (h : s.step .pop = some (s', a)) : s'.Inv ∧ a.Safe s := by
  rcases hinv with ⟨hshared, hproducer, hconsumer⟩
  have hinv : s.Inv := ⟨hshared, hproducer, hconsumer⟩
  simp only [Spsc.step] at h
  split at h
  . split at h
    . simp only [Option.some.injEq, Prod.mk.injEq] at h
      rcases h with ⟨rfl, rfl⟩
      exact ⟨hinv, trivial⟩
    . next hv =>
      simp only [Option.some.injEq, Prod.mk.injEq] at h
      rcases h with ⟨rfl, rfl⟩
      exact ⟨⟨hshared, hproducer, by simpa [ConsumerPc.Ok] using hv⟩, trivial⟩
  . simp at h

theorem Inv.step_prepareRead {n : SizeT} (hinv : s.Inv)
    (h : s.step (.prepareRead n) = some (s', a))
    : s'.Inv ∧ a.Safe s := by
  rcases hinv with ⟨hshared, hproducer, hconsumer⟩
  simp only [Spsc.step] at h
  split at h
  . split at h
    . simp only [Option.some.injEq, Prod.mk.injEq] at h
      rcases h with ⟨rfl, rfl⟩
      exact ⟨⟨hshared, hproducer, ⟨rfl, hshared.le⟩⟩, trivial⟩
    . next hv =>
      simp only [Option.some.injEq, Prod.mk.injEq] at h
      rcases h with ⟨rfl, rfl⟩
      rw [Bool.or_eq_true, not_or] at hv
      exact ⟨⟨hshared, hproducer, by simpa [ConsumerPc.Ok] using hv.1⟩, trivial⟩
  . simp at h

theorem Inv.step_readView {i : Nat} (hinv : s.Inv)
    (h : s.step (.readView i) = some (s', a))
    : s'.Inv ∧ a.Safe s := by
  simp only [Spsc.step] at h
  split at h
  . next view hpc =>
    split at h
    . next hi =>
      simp only [Option.some.injEq, Prod.mk.injEq] at h
      rcases h with ⟨rfl, rfl⟩
      exact ⟨hinv, hinv.readView hpc hi⟩
    . simp at h
  . simp at h

theorem Inv.step_commitRead {k : SizeT} (hinv : s.Inv)
    (h : s.step (.commitRead k) = some (s', a))
    : s'.Inv ∧ a.Safe s := by
  rcases hinv with ⟨hshared, hproducer, hconsumer⟩
  simp only [Spsc.step] at h
  split at h
  . next view hpc =>
    split at h
    . next hk =>
      split at h
      . simp only [Option.some.injEq, Prod.mk.injEq] at h
        rcases h with ⟨rfl, rfl⟩
        exact ⟨⟨hshared, hproducer, trivial⟩, trivial⟩
      . simp only [Option.some.injEq, Prod.mk.injEq] at h
        rcases h with ⟨rfl, rfl⟩
        rw [hpc] at hconsumer
        rw [UInt64.le_iff_toNat_le] at hk
        refine ⟨⟨hshared, hproducer, ⟨hconsumer.1, hconsumer.2, ?_⟩⟩, trivial⟩
        rw [Word.toNat_min]
        omega
    . simp at h
  . simp at h

theorem Inv.step (hinv : s.Inv) {act : Act} (h : s.step act = some (s', a))
    : s'.Inv ∧ a.Safe s := by
  cases act with
  | produce => exact hinv.produce h
  | consume => exact hinv.consume h
  | put c => exact hinv.step_put h
  | prepareWrite n => exact hinv.step_prepareWrite h
  | writeView i c => exact hinv.step_writeView h
  | commitWrite k => exact hinv.step_commitWrite h
  | pop => exact hinv.step_pop h
  | prepareRead n => exact hinv.step_prepareRead h
  | readView i => exact hinv.step_readView h
  | commitRead k => exact hinv.step_commitRead h

theorem Inv.fresh {rb : RingBuffer} (hfresh : rb.Fresh) : (fresh rb).Inv := by
  refine ⟨?_, trivial, trivial⟩
  exact ⟨hfresh.counters.1, hfresh.counters.2.1, Nat.le_refl 0, Nat.zero_le _, rfl, rfl⟩

end Spsc

/--
In every state that interleaved steps can reach, the next step of the producer writes neither a
published slot nor one of a view that the consumer holds, the next step of the consumer reads what was
published for its position, and the published bytes are the consumed ones followed by the stored
ones.
-/
theorem spsc_exclusive_delivery {rb : RingBuffer} (hfresh : rb.Fresh)
    {trace : List (Act × Access)} {s : Spsc}
    (hrun : Transition.Run (Transition.ofStep Spsc.step) (.fresh rb) trace s)
    : (∀ act slot s', s.step act = some (s', .wrote slot) →
          slot ∉ s.rb.window ∧ slot ∉ s.consumer.held)
        ∧
      (∀ act pos c s', s.step act = some (s', .read pos c) → s.published[pos]? = some c)
        ∧
      s.consumed ++ s.rb.content = s.published := by
  have hinv : s.Inv := by
    apply hrun.invariant (Spsc.Inv.fresh hfresh)
    intro s₁ act a s₂ hinv hstep
    exact (hinv.step hstep).1
  refine ⟨?_, ?_, hinv.shared.delivered⟩
  . intro act slot s' hstep
    exact (hinv.step hstep).2
  . intro act pos c s' hstep
    exact (hinv.step hstep).2

-- the first `pop` has loaded `head_` before the byte is published and finds nothing, the second takes it
theorem spsc_delivers_after_stale_head
    : let acts : List Act := [.put 7, .pop, .produce, .consume, .produce, .produce, .produce,
        .consume, .pop, .consume, .consume]
      ∃ outs s s₁ s₂ c, Transition.Run (Transition.ofStep Spsc.step)
          (.fresh (ofSize 2 (some (.replicate 2 0)))) (acts.zip outs) s
        ∧ s.step .consume = some (s₁, .read 0 c) ∧ s.published[0]? = some c
        ∧ s₁.step .consume = some (s₂, .none) ∧ s₂.consumed = [7]
        ∧ s₂.consumed ++ s₂.rb.content = [7] := by
  intro acts
  have hexec : ((Transition.exec Spsc.step (.fresh (ofSize 2 (some (.replicate 2 0)))) acts).bind
      fun r => (r.1.step .consume).bind fun r₁ => (r₁.1.step .consume).map fun r₂ =>
        (r₁.2, r₂.2, r₂.1.consumed, r₂.1.published))
      = some (.read 0 7, .none, [7], [7]) := by decide
  rcases Option.bind_eq_some_iff.mp hexec with ⟨⟨s, outs⟩, hexec, hread⟩
  rcases Option.bind_eq_some_iff.mp hread with ⟨⟨s₁, access⟩, hread, hstore⟩
  rcases Option.map_eq_some_iff.mp hstore with ⟨⟨s₂, access₂⟩, hstore, heq⟩
  simp only [Prod.mk.injEq] at heq
  rcases heq with ⟨rfl, rfl, hconsumed, hpublished⟩
  have hrun := Transition.run_of_exec hexec
  have hrun₂ : Transition.Run (Transition.ofStep Spsc.step) (.fresh (ofSize 2 (some (.replicate 2 0)))) _ s₂ :=
    .snoc (.snoc hrun hread) hstore
  have hdelivered := (spsc_exclusive_delivery (.ofSize 2 _) hrun₂).2.2
  rw [hpublished] at hdelivered
  have hposition := (spsc_exclusive_delivery (.ofSize 2 _) hrun).2.1 .consume 0 7 s₁ hread
  exact ⟨outs, s, s₁, s₂, 7, hrun, hread, hposition, hstore, hconsumed, hdelivered⟩

end RingBuffer

end Sfap
