import Sfap.Utils.RingBuffer.Impl

/-!
This module contains what each operation of `RingBuffer` does, stated on natural numbers, and how
the stored bytes follow.
-/

namespace Sfap

namespace View

@[simp]
theorem size_empty : View.empty.size = 0 := by
  rfl

@[simp]
theorem slots_empty : View.empty.slots = [] := by
  rfl

@[simp]
theorem size_split (capacity mask start take : SizeT)
    : (View.split capacity mask start take).size = take := by
  rw [← UInt64.toNat_inj]
  have := UInt64.toNat_lt take
  unfold View.split View.size
  dsimp
  rw [UInt64.toNat_add, Word.toNat_sub_of_toNat_le]
  . rw [Word.toNat_min]
    omega
  . rw [Word.toNat_min]
    omega

theorem length_slots (view : View)
    : view.slots.length = view.first.size.toNat + view.second.size.toNat := by
  unfold slots
  simp

end View

namespace RingBuffer

variable (rb : RingBuffer)

theorem isValid_iff : rb.isValid = true ↔ 0 < rb.capacity.toNat := by
  have hlayout := rb.layout
  unfold Layout at hlayout
  unfold isValid
  split at hlayout
  . next hnone => simp [hnone, hlayout.1]
  . next storage hsome =>
    rcases hlayout.1 with ⟨b, hb⟩
    simp only [hsome, hb, Option.isSome_some, true_iff]
    apply Nat.two_pow_pos

theorem length_bytes : rb.bytes.length = rb.capacity.toNat := by
  have hlayout := rb.layout
  unfold Layout at hlayout
  unfold bytes
  split at hlayout
  . next hnone => simp [hnone, hlayout.1]
  . next storage hsome => simp [hsome, hlayout.2.1]

theorem capacity_two_pow (hv : rb.isValid = true)
    : ∃ b, rb.capacity.toNat = 2 ^ b ∧ rb.mask = rb.capacity - 1 := by
  have hlayout := rb.layout
  unfold Layout at hlayout
  split at hlayout
  . next hnone => simp [isValid, hnone] at hv
  . rcases hlayout with ⟨⟨b, hb⟩, _, hmask⟩
    exact ⟨b, hb, hmask⟩

theorem capacity_dvd (hv : rb.isValid = true) : rb.capacity.toNat ∣ 2 ^ 64 := by
  rcases rb.capacity_two_pow hv with ⟨b, hb, _⟩
  apply Word.dvd_of_two_pow hb

theorem toNat_and_mask (hv : rb.isValid = true) (x : SizeT)
    : (x &&& rb.mask).toNat = x.toNat % rb.capacity.toNat := by
  rcases rb.capacity_two_pow hv with ⟨b, hb, hmask⟩
  rw [hmask]
  apply Word.toNat_and_mask
  exact hb

theorem slots_split (hv : rb.isValid = true) (start take : SizeT)
    (hle : take.toNat ≤ rb.capacity.toNat)
    : (View.split rb.capacity rb.mask start take).slots
        =
      Circular.slots rb.capacity.toNat start.toNat take.toNat := by
  have hpos := rb.isValid_iff.mp hv
  have hlt := Nat.mod_lt start.toNat hpos
  rw [Circular.slots_eq_range' hpos hle]
  unfold View.split View.slots
  dsimp
  have hfirst : (min take (rb.capacity - (start &&& rb.mask))).toNat
      = min take.toNat (rb.capacity.toNat - start.toNat % rb.capacity.toNat) := by
    rw [Word.toNat_min, Word.toNat_sub_of_toNat_le]
    . rw [rb.toNat_and_mask hv]
    . rw [rb.toNat_and_mask hv]
      omega
  rw [Word.toNat_sub_of_toNat_le (by omega), hfirst, rb.toNat_and_mask hv]

theorem slots_distance (hv : rb.isValid = true) (h t : SizeT) (len : Nat)
    : Circular.slots rb.capacity.toNat (t.toNat + (h - t).toNat) len
        =
      Circular.slots rb.capacity.toNat h.toNat len := by
  rw [← Circular.slots_mod (rb.capacity_dvd hv)]
  rw [Word.add_distance]

theorem slots_advance (hv : rb.isValid = true) (x k : SizeT) (len : Nat)
    : Circular.slots rb.capacity.toNat (x + k).toNat len
        =
      Circular.slots rb.capacity.toNat (x.toNat + k.toNat) len := by
  rw [UInt64.toNat_add]
  apply Circular.slots_mod
  apply rb.capacity_dvd hv

@[simp]
theorem bytes_storeByte (slot : Nat) (c : Byte)
    : (rb.storeByte slot c).bytes = rb.bytes.set slot c := by
  unfold bytes storeByte
  dsimp
  generalize rb.data = data
  cases data <;> simp

@[simp]
theorem isValid_storeByte (slot : Nat) (c : Byte)
    : (rb.storeByte slot c).isValid = rb.isValid := by
  unfold isValid storeByte
  simp

@[simp]
theorem capacity_storeByte (slot : Nat) (c : Byte)
    : (rb.storeByte slot c).capacity = rb.capacity := by
  rfl

@[simp]
theorem head_storeByte (slot : Nat) (c : Byte) : (rb.storeByte slot c).head = rb.head := by
  rfl

@[simp]
theorem tail_storeByte (slot : Nat) (c : Byte) : (rb.storeByte slot c).tail = rb.tail := by
  rfl

@[simp]
theorem size_storeByte (slot : Nat) (c : Byte) : (rb.storeByte slot c).size = rb.size := by
  rfl

@[simp]
theorem pendingW_storeByte (slot : Nat) (c : Byte)
    : (rb.storeByte slot c).pendingW = rb.pendingW := by
  rfl

@[simp]
theorem pendingR_storeByte (slot : Nat) (c : Byte)
    : (rb.storeByte slot c).pendingR = rb.pendingR := by
  rfl

def producer (head pendingW : SizeT) : RingBuffer :=
  { rb with head := head, pendingW := pendingW }

def consumer (tail pendingR : SizeT) : RingBuffer :=
  { rb with tail := tail, pendingR := pendingR }

section Counters

variable (x y : SizeT)

@[simp]
theorem bytes_producer : (rb.producer x y).bytes = rb.bytes := by
  rfl

@[simp]
theorem isValid_producer : (rb.producer x y).isValid = rb.isValid := by
  rfl

@[simp]
theorem capacity_producer : (rb.producer x y).capacity = rb.capacity := by
  rfl

@[simp]
theorem head_producer : (rb.producer x y).head = x := by
  rfl

@[simp]
theorem tail_producer : (rb.producer x y).tail = rb.tail := by
  rfl

@[simp]
theorem pendingW_producer : (rb.producer x y).pendingW = y := by
  rfl

@[simp]
theorem pendingR_producer : (rb.producer x y).pendingR = rb.pendingR := by
  rfl

@[simp]
theorem bytes_consumer : (rb.consumer x y).bytes = rb.bytes := by
  rfl

@[simp]
theorem isValid_consumer : (rb.consumer x y).isValid = rb.isValid := by
  rfl

@[simp]
theorem capacity_consumer : (rb.consumer x y).capacity = rb.capacity := by
  rfl

@[simp]
theorem head_consumer : (rb.consumer x y).head = rb.head := by
  rfl

@[simp]
theorem tail_consumer : (rb.consumer x y).tail = x := by
  rfl

@[simp]
theorem pendingW_consumer : (rb.consumer x y).pendingW = rb.pendingW := by
  rfl

@[simp]
theorem pendingR_consumer : (rb.consumer x y).pendingR = y := by
  rfl

@[simp]
theorem size_producer_head : (rb.producer rb.head y).size = rb.size := by
  rfl

@[simp]
theorem size_consumer_tail : (rb.consumer rb.tail y).size = rb.size := by
  rfl

end Counters

theorem toNat_free (h : rb.size.toNat ≤ rb.capacity.toNat)
    : rb.free.toNat = rb.capacity.toNat - rb.size.toNat := by
  apply Word.toNat_sub_of_toNat_le
  exact h

theorem capacity_null (hv : rb.isValid = false) : rb.capacity.toNat = 0 := by
  have := mt rb.isValid_iff.mpr (by simpa using hv)
  omega

theorem size_producer (k p : SizeT) (hk : rb.size.toNat + k.toNat ≤ rb.capacity.toNat)
    : (rb.producer (rb.head + k) p).size.toNat = rb.size.toNat + k.toNat := by
  have := UInt64.toNat_lt rb.capacity
  unfold size at hk ⊢
  simp only [head_producer, tail_producer]
  apply Word.distance_add
  omega

theorem size_consumer (k p : SizeT) (hk : k.toNat ≤ rb.size.toNat)
    : (rb.consumer (rb.tail + k) p).size.toNat = rb.size.toNat - k.toNat := by
  apply Word.distance_sub
  exact hk

def window : List Nat :=
  Circular.slots rb.capacity.toNat rb.tail.toNat rb.size.toNat

/--
The stored bytes, oldest first.
-/
def content : List Byte :=
  Circular.read rb.bytes (Circular.slots rb.capacity.toNat rb.tail.toNat rb.size.toNat)

@[simp]
theorem length_content : rb.content.length = rb.size.toNat := by
  unfold content
  simp

@[simp]
theorem content_producer_head (p : SizeT) : (rb.producer rb.head p).content = rb.content := by
  rfl

@[simp]
theorem content_consumer_tail (p : SizeT) : (rb.consumer rb.tail p).content = rb.content := by
  rfl

theorem content_storeByte (slot : Nat) (c : Byte)
    (h : slot ∉ Circular.slots rb.capacity.toNat rb.tail.toNat rb.size.toNat)
    : (rb.storeByte slot c).content = rb.content := by
  unfold content
  rw [bytes_storeByte]
  apply Circular.read_set_of_notMem
  exact h

theorem content_producer (hv : rb.isValid = true) (k p : SizeT)
    (hk : rb.size.toNat + k.toNat ≤ rb.capacity.toNat)
    : (rb.producer (rb.head + k) p).content
        =
      rb.content
        ++ Circular.read rb.bytes
          (Circular.slots rb.capacity.toNat rb.head.toNat k.toNat) := by
  unfold content
  rw [rb.size_producer k p hk]
  rw [Circular.slots_append]
  rw [Circular.read_append]
  congr 2
  apply rb.slots_distance hv

theorem content_consumer (hv : rb.isValid = true) (k p : SizeT)
    (hk : k.toNat ≤ rb.size.toNat)
    : (rb.consumer (rb.tail + k) p).content = rb.content.drop k.toNat := by
  unfold content
  rw [rb.size_consumer k p hk]
  rw [Circular.drop_read]
  rw [Circular.drop_slots hk]
  congr 1
  apply rb.slots_advance hv

theorem head_notMem (h : rb.size.toNat < rb.capacity.toNat)
    : rb.head.toNat % rb.capacity.toNat
        ∉ Circular.slots rb.capacity.toNat rb.tail.toNat rb.size.toNat := by
  have hv : rb.isValid = true := by
    rw [isValid_iff]
    omega
  have hdisj : (Circular.slots rb.capacity.toNat rb.tail.toNat rb.size.toNat).Disjoint
      (Circular.slots rb.capacity.toNat (rb.tail.toNat + rb.size.toNat) 1) := by
    apply Circular.disjoint_slots
    omega
  unfold size at hdisj
  rw [rb.slots_distance hv] at hdisj
  rw [Circular.slots_one, List.disjoint_singleton] at hdisj
  exact hdisj

theorem content_eq_cons (h : 0 < rb.size.toNat)
    : rb.content
        =
      rb.loadByte (rb.tail.toNat % rb.capacity.toNat) :: rb.content.drop 1 := by
  have hone : rb.content.take 1 = [rb.loadByte (rb.tail.toNat % rb.capacity.toNat)] := by
    unfold content
    rw [Circular.take_read]
    rw [Circular.take_slots (by omega)]
    rfl
  rw [← List.singleton_append, ← hone]
  rw [List.take_append_drop]

theorem toNat_availableW (t h : SizeT)
    : (rb.availableW t h).toNat = (rb.capacity - (h - t)).toNat - rb.pendingW.toNat := by
  unfold availableW
  apply Word.toNat_ite_sub

theorem toNat_availR (h t : SizeT)
    : (rb.availR h t).toNat = (h - t).toNat - rb.pendingR.toNat := by
  unfold availR
  apply Word.toNat_ite_sub

theorem size_prepareWriteAt (t h n : SizeT)
    : (rb.prepareWriteAt t h n).1.size = min n (rb.availableW t h) := by
  unfold prepareWriteAt
  by_cases htake : min n (rb.availableW t h) = 0
  . simp [htake]
  . simp [htake]

theorem prepareWriteAt_snd (t h n : SizeT)
    : (rb.prepareWriteAt t h n).2
        =
      rb.producer rb.head (rb.pendingW + (rb.prepareWriteAt t h n).1.size) := by
  rw [size_prepareWriteAt]
  unfold prepareWriteAt producer
  by_cases htake : min n (rb.availableW t h) = 0
  . simp [htake]
  . simp [htake]

theorem slots_prepareWriteAt (hv : rb.isValid = true) (t h n : SizeT)
    (hle : (rb.prepareWriteAt t h n).1.size.toNat ≤ rb.capacity.toNat)
    : (rb.prepareWriteAt t h n).1.slots
        =
      Circular.slots rb.capacity.toNat h.toNat (rb.prepareWriteAt t h n).1.size.toNat := by
  rw [size_prepareWriteAt] at hle ⊢
  unfold prepareWriteAt
  by_cases htake : min n (rb.availableW t h) = 0
  . simp [htake]
  . simp only [beq_iff_eq, htake, ↓reduceIte]
    apply rb.slots_split hv
    exact hle

theorem prepareWrite_eq (hv : rb.isValid = true) (n : SizeT)
    : rb.prepareWrite n = rb.prepareWriteAt rb.tail rb.head n := by
  unfold prepareWrite
  by_cases hn : n = 0
  . unfold prepareWriteAt
    simp [hn]
  . simp [hv, hn]

theorem prepareWrite_null (hv : rb.isValid = false) (n : SizeT) : rb.prepareWrite n = (.empty, rb) := by
  unfold prepareWrite
  simp [hv]

theorem toNat_size_prepareWrite (hv : rb.isValid = true) (n : SizeT)
    : (rb.prepareWrite n).1.size.toNat = min n.toNat (rb.free.toNat - rb.pendingW.toNat) := by
  rw [rb.prepareWrite_eq hv]
  rw [size_prepareWriteAt]
  rw [Word.toNat_min, toNat_availableW]
  rfl

theorem prepareWrite_snd (n : SizeT)
    : (rb.prepareWrite n).2 = rb.producer rb.head (rb.pendingW + (rb.prepareWrite n).1.size) := by
  cases hv : rb.isValid with
  | true =>
    rw [rb.prepareWrite_eq hv]
    apply prepareWriteAt_snd
  | false =>
    rw [rb.prepareWrite_null hv]
    simp [producer]

theorem size_prepareWrite_le (hle : rb.size.toNat ≤ rb.capacity.toNat) (n : SizeT)
    : rb.size.toNat + (rb.prepareWrite n).1.size.toNat ≤ rb.capacity.toNat
        ∧ (rb.prepareWrite n).1.size.toNat ≤ n.toNat
        ∧ rb.pendingW.toNat + (rb.prepareWrite n).1.size.toNat < 2 ^ 64 := by
  have := UInt64.toNat_lt rb.pendingW
  have := UInt64.toNat_lt rb.capacity
  cases hv : rb.isValid with
  | true =>
    rw [rb.toNat_size_prepareWrite hv, rb.toNat_free hle]
    omega
  | false =>
    rw [rb.prepareWrite_null hv]
    simp only [View.size_empty, UInt64.toNat_zero]
    omega

theorem slots_prepareWrite (n : SizeT)
    (hle : (rb.prepareWrite n).1.size.toNat ≤ rb.capacity.toNat)
    : (rb.prepareWrite n).1.slots
        =
      Circular.slots rb.capacity.toNat rb.head.toNat (rb.prepareWrite n).1.size.toNat := by
  cases hv : rb.isValid with
  | true =>
    rw [rb.prepareWrite_eq hv] at hle ⊢
    apply rb.slots_prepareWriteAt hv
    exact hle
  | false =>
    rw [rb.prepareWrite_null hv]
    simp

theorem size_prepareReadAt (h t n : SizeT)
    : (rb.prepareReadAt h t n).1.size = min n (rb.availR h t) := by
  unfold prepareReadAt
  by_cases htake : min n (rb.availR h t) = 0
  . simp [htake]
  . simp [htake]

theorem prepareReadAt_snd (h t n : SizeT)
    : (rb.prepareReadAt h t n).2
        =
      rb.consumer rb.tail (rb.pendingR + (rb.prepareReadAt h t n).1.size) := by
  rw [size_prepareReadAt]
  unfold prepareReadAt consumer
  by_cases htake : min n (rb.availR h t) = 0
  . simp [htake]
  . simp [htake]

theorem slots_prepareReadAt (hv : rb.isValid = true) (h t n : SizeT)
    (hle : (rb.prepareReadAt h t n).1.size.toNat ≤ rb.capacity.toNat)
    : (rb.prepareReadAt h t n).1.slots
        =
      Circular.slots rb.capacity.toNat t.toNat (rb.prepareReadAt h t n).1.size.toNat := by
  rw [size_prepareReadAt] at hle ⊢
  unfold prepareReadAt
  by_cases htake : min n (rb.availR h t) = 0
  . simp [htake]
  . simp only [beq_iff_eq, htake, ↓reduceIte]
    apply rb.slots_split hv
    exact hle

theorem prepareRead_eq (hv : rb.isValid = true) (n : SizeT)
    : rb.prepareRead n = rb.prepareReadAt rb.head rb.tail n := by
  unfold prepareRead
  by_cases hn : n = 0
  . unfold prepareReadAt
    simp [hn]
  . simp [hv, hn]

theorem prepareRead_null (hv : rb.isValid = false) (n : SizeT) : rb.prepareRead n = (.empty, rb) := by
  unfold prepareRead
  simp [hv]

theorem toNat_size_prepareRead (hv : rb.isValid = true) (n : SizeT)
    : (rb.prepareRead n).1.size.toNat = min n.toNat (rb.size.toNat - rb.pendingR.toNat) := by
  rw [rb.prepareRead_eq hv]
  rw [size_prepareReadAt]
  rw [Word.toNat_min, toNat_availR]
  rfl

theorem prepareRead_snd (n : SizeT)
    : (rb.prepareRead n).2 = rb.consumer rb.tail (rb.pendingR + (rb.prepareRead n).1.size) := by
  cases hv : rb.isValid with
  | true =>
    rw [rb.prepareRead_eq hv]
    apply prepareReadAt_snd
  | false =>
    rw [rb.prepareRead_null hv]
    simp [consumer]

theorem size_prepareRead_le (n : SizeT)
    : (rb.prepareRead n).1.size.toNat ≤ rb.size.toNat
        ∧ (rb.prepareRead n).1.size.toNat ≤ n.toNat
        ∧ rb.pendingR.toNat + (rb.prepareRead n).1.size.toNat < 2 ^ 64 := by
  have := UInt64.toNat_lt rb.pendingR
  have := UInt64.toNat_lt rb.size
  cases hv : rb.isValid with
  | true =>
    rw [rb.toNat_size_prepareRead hv]
    omega
  | false =>
    rw [rb.prepareRead_null hv]
    simp only [View.size_empty, UInt64.toNat_zero]
    omega

theorem slots_prepareRead (n : SizeT)
    (hle : (rb.prepareRead n).1.size.toNat ≤ rb.capacity.toNat)
    : (rb.prepareRead n).1.slots
        =
      Circular.slots rb.capacity.toNat rb.tail.toNat (rb.prepareRead n).1.size.toNat := by
  cases hv : rb.isValid with
  | true =>
    rw [rb.prepareRead_eq hv] at hle ⊢
    apply rb.slots_prepareReadAt hv
    exact hle
  | false =>
    rw [rb.prepareRead_null hv]
    simp

theorem commitWrite_eq (n : SizeT)
    : rb.commitWrite n
        =
      (min n rb.pendingW,
        rb.producer (rb.head + min n rb.pendingW) (rb.pendingW - min n rb.pendingW)) := by
  unfold commitWrite producer
  by_cases hn : n = 0
  . simp [hn]
  . by_cases hcan : min n rb.pendingW = 0
    . simp [hn, hcan]
    . simp [hn, hcan, UInt64.add_comm]

theorem commitRead_eq (n : SizeT)
    : rb.commitRead n
        =
      (min n rb.pendingR,
        rb.consumer (rb.tail + min n rb.pendingR) (rb.pendingR - min n rb.pendingR)) := by
  unfold commitRead consumer
  by_cases hn : n = 0
  . simp [hn]
  . by_cases hcan : min n rb.pendingR = 0
    . simp [hn, hcan]
    . simp [hn, hcan]

theorem put_full (c : Byte) (h : rb.size.toNat = rb.capacity.toNat) : rb.put c = (false, rb) := by
  unfold put
  have : rb.capacity - (rb.head - rb.tail) = 0 := by
    rw [UInt64.toNat_inj] at h
    unfold size at h
    simp [h]
  simp [this]

theorem put_eq (c : Byte) (h : rb.size.toNat < rb.capacity.toNat)
    : rb.put c
        =
      (true,
        (rb.storeByte (rb.head.toNat % rb.capacity.toNat) c).producer (rb.head + 1)
          rb.pendingW) := by
  have hv : rb.isValid = true := by
    rw [isValid_iff]
    omega
  unfold put
  have : rb.capacity - (rb.head - rb.tail) ≠ 0 := by
    unfold size at h
    intro heq
    rw [Word.eq_zero_iff_toNat, Word.toNat_sub_of_toNat_le] at heq
    . omega
    . omega
  simp only [hv, Bool.not_true, Bool.false_eq_true, ↓reduceIte, beq_iff_eq, this]
  rw [rb.toNat_and_mask hv]
  rfl

theorem content_put (c : Byte) (h : rb.size.toNat < rb.capacity.toNat)
    : ((rb.storeByte (rb.head.toNat % rb.capacity.toNat) c).producer (rb.head + 1)
        rb.pendingW).content
        =
      rb.content ++ [c] := by
  have hv : rb.isValid = true := by
    rw [isValid_iff]
    omega
  have hadvance := (rb.storeByte (rb.head.toNat % rb.capacity.toNat) c).content_producer
    (by simpa using hv) 1 rb.pendingW
  refine Eq.trans (hadvance h) ?_
  rw [content_storeByte _ _ _ (rb.head_notMem h)]
  have hlt : rb.head.toNat % rb.capacity.toNat < rb.bytes.length := by
    rw [length_bytes]
    apply Nat.mod_lt
    omega
  simp [Circular.read, hlt]

theorem pop_empty (h : rb.size.toNat = 0) : rb.pop = (none, rb) := by
  unfold pop
  have : rb.head - rb.tail = 0 := by
    rw [Word.eq_zero_iff_toNat]
    exact h
  simp [this]

theorem pop_eq (hv : rb.isValid = true) (h : 0 < rb.size.toNat)
    : rb.pop
        =
      (some (rb.loadByte (rb.tail.toNat % rb.capacity.toNat)),
        rb.consumer (rb.tail + 1) rb.pendingR) := by
  unfold pop
  have : rb.head - rb.tail ≠ 0 := by
    intro heq
    rw [Word.eq_zero_iff_toNat] at heq
    unfold size at h
    omega
  simp only [hv, Bool.not_true, Bool.false_eq_true, ↓reduceIte, beq_iff_eq, this]
  rw [rb.toNat_and_mask hv]
  rfl

theorem head_put (c : Byte)
    : (rb.put c).2.head = rb.head + .ofNat (rb.put c).1.toNat := by
  unfold put
  split
  . simp
  . dsimp
    split <;> simp

@[simp]
theorem tail_put (c : Byte) : (rb.put c).2.tail = rb.tail := by
  unfold put
  split
  . rfl
  . dsimp
    split <;> rfl

@[simp]
theorem capacity_put (c : Byte) : (rb.put c).2.capacity = rb.capacity := by
  unfold put
  split
  . rfl
  . dsimp
    split <;> rfl

@[simp]
theorem head_pop : rb.pop.2.head = rb.head := by
  unfold pop
  split
  . rfl
  . dsimp
    split <;> rfl

theorem tail_pop : rb.pop.2.tail = rb.tail + .ofNat rb.pop.1.isSome.toNat := by
  unfold pop
  split
  . simp
  . dsimp
    split <;> simp

@[simp]
theorem capacity_pop : rb.pop.2.capacity = rb.capacity := by
  unfold pop
  split
  . rfl
  . dsimp
    split <;> rfl

@[simp]
theorem pendingW_put (c : Byte) : (rb.put c).2.pendingW = rb.pendingW := by
  unfold put
  split
  . rfl
  . dsimp
    split <;> rfl

@[simp]
theorem pendingR_put (c : Byte) : (rb.put c).2.pendingR = rb.pendingR := by
  unfold put
  split
  . rfl
  . dsimp
    split <;> rfl

@[simp]
theorem pendingW_pop : rb.pop.2.pendingW = rb.pendingW := by
  unfold pop
  split
  . rfl
  . dsimp
    split <;> rfl

@[simp]
theorem pendingR_pop : rb.pop.2.pendingR = rb.pendingR := by
  unfold pop
  split
  . rfl
  . dsimp
    split <;> rfl

end RingBuffer

end Sfap
