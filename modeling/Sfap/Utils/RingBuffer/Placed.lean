import Sfap.Utils.RingBuffer.Lemmas

/-!
This module contains ring buffers where they are in memory, with a pointer to storage of their own or of
their callers. Each of their calls does what it does to a ring buffer whose storage is part of its value.
-/

namespace Sfap

def ByteSpan.cells (span : ByteSpan) : List Ptr :=
  match span.data with
  | none => []
  | some q => (List.range span.size.toNat).map q.add

namespace RingBuffer

structure Placed where
  data : Option Ptr
  capacity : SizeT
  isOwner : Bool
  mask : SizeT
  head : SizeT
  tail : SizeT
  pendingW : SizeT
  pendingR : SizeT
  deriving DecidableEq

namespace Placed

def construct (data : Option Ptr) (n : SizeT) (isOwner : Bool) : Placed :=
  let capacity := if data.isSome then n else 0
  ⟨data, capacity, isOwner, if capacity != 0 then capacity - 1 else 0, 0, 0, 0, 0⟩

def ofSize (heap : Heap) (n : SizeT) (garbage : Option (Nat → Byte)) : Placed × Heap :=
  let (data, heap) := if n != 0 && Word.hasSingleBit n then heap.newBytes n garbage else (none, heap)
  (construct data n data.isSome, heap)

def ofExternal (external : ByteSpan) : Placed :=
  let data := if external.size == 0 || !Word.hasSingleBit external.size then none else external.data
  construct data external.size false

-- what `std::exchange` leaves behind
def movedFrom : Placed := ⟨none, 0, false, 0, 0, 0, 0, 0⟩

def moveConstruct (other : Placed) : Placed × Placed :=
  (other, movedFrom)

def destroy (heap : Heap) (p : Placed) : Heap :=
  if p.isOwner then heap.deleteBytes p.data else heap

-- only for `this != &other`
def moveAssign (heap : Heap) (p other : Placed) : Placed × Placed × Heap :=
  (other, movedFrom, p.destroy heap)

def isValid (p : Placed) : Bool :=
  p.data.isSome

def size (p : Placed) : SizeT :=
  p.head - p.tail

def clean (p : Placed) : Placed :=
  { p with head := 0, tail := 0, pendingW := 0, pendingR := 0 }

-- `data_ + pos` and `data_`
def split (p : Placed) (start take : SizeT) : ByteSpan × ByteSpan :=
  let pos := start &&& p.mask
  let first := min take (p.capacity - pos)
  let second := take - first
  (⟨p.data.map (·.add pos.toNat), first⟩, ⟨p.data, second⟩)

def prepareWrite (p : Placed) (n : SizeT) : (ByteSpan × ByteSpan) × Placed :=
  if !p.isValid || n == 0 then
    ((⟨none, 0⟩, ⟨none, 0⟩), p)
  else
    let t := p.tail
    let h := p.head
    let used := h - t
    let free := p.capacity - used
    let available := if free > p.pendingW then free - p.pendingW else 0
    let take := min n available
    if take == 0 then
      ((⟨none, 0⟩, ⟨none, 0⟩), p)
    else
      (p.split h take, { p with pendingW := p.pendingW + take })

def commitWrite (p : Placed) (n : SizeT) : SizeT × Placed :=
  if n == 0 then
    (0, p)
  else
    let can := min n p.pendingW
    if can == 0 then
      (0, p)
    else
      let h := p.head
      let newH := can + h
      (can, { p with head := newH, pendingW := p.pendingW - can })

def loadAt (heap : Heap) (p : Placed) (i : Nat) : Byte :=
  match p.data with
  | none => default
  | some data => (heap.load (data.add i) 1).headD default

def storeAt (heap : Heap) (p : Placed) (i : Nat) (c : Byte) : Heap :=
  match p.data with
  | none => heap
  | some data => heap.store (data.add i) [c]

def put (heap : Heap) (p : Placed) (c : Byte) : Bool × Placed × Heap :=
  if !p.isValid then
    (false, p, heap)
  else
    let t := p.tail
    let h := p.head
    if p.capacity - (h - t) == 0 then
      (false, p, heap)
    else
      let heap := p.storeAt heap (h &&& p.mask).toNat c
      (true, { p with head := h + 1 }, heap)

def prepareRead (p : Placed) (n : SizeT) : (ByteSpan × ByteSpan) × Placed :=
  if !p.isValid || n == 0 then
    ((⟨none, 0⟩, ⟨none, 0⟩), p)
  else
    let h := p.head
    let t := p.tail
    let s := h - t
    let available := if s > p.pendingR then s - p.pendingR else 0
    let take := min n available
    if take == 0 then
      ((⟨none, 0⟩, ⟨none, 0⟩), p)
    else
      (p.split t take, { p with pendingR := p.pendingR + take })

def commitRead (p : Placed) (n : SizeT) : SizeT × Placed :=
  if n == 0 then
    (0, p)
  else
    let can := min n p.pendingR
    if can == 0 then
      (0, p)
    else
      let t := p.tail
      let newT := t + can
      (can, { p with tail := newT, pendingR := p.pendingR - can })

def pop (heap : Heap) (p : Placed) : Option Byte × Placed :=
  if !p.isValid then
    (none, p)
  else
    let h := p.head
    let t := p.tail
    if h - t == 0 then
      (none, p)
    else
      let c := p.loadAt heap (t &&& p.mask).toNat
      (some c, { p with tail := t + 1 })

end Placed

-- `rb` has what `p` points to as part of its value
structure Mirrors (heap : Heap) (p : Placed) (rb : RingBuffer) : Prop where
  data : rb.data = p.data.map fun q => heap.load q p.capacity.toNat
  backs : ∀ q, p.data = some q → heap.Backs q p.capacity.toNat
  capacity : rb.capacity = p.capacity
  isOwner : rb.isOwner = p.isOwner
  mask : rb.mask = p.mask
  head : rb.head = p.head
  tail : rb.tail = p.tail
  pendingW : rb.pendingW = p.pendingW
  pendingR : rb.pendingR = p.pendingR

namespace Placed

inductive Call where
  | put (c : Byte)
  | prepareWrite (n : SizeT)
  | storeByte (i : Nat) (c : Byte)
  | commitWrite (n : SizeT)
  | pop
  | prepareRead (n : SizeT)
  | loadByte (i : Nat)
  | commitRead (n : SizeT)
  | size
  | clean

inductive Out where
  | done
  | valid (b : Bool)
  | flag (ok : Bool)
  | byte (c : Option Byte)
  | count (n : SizeT)
  | sizes (first second : SizeT)
  deriving DecidableEq

namespace Call

def byValue (call : Call) (rb : RingBuffer) : Out × RingBuffer :=
  match call with
  | .put c =>
    let (ok, rb) := rb.put c
    (.flag ok, rb)
  | .prepareWrite n =>
    let (view, rb) := rb.prepareWrite n
    (.sizes view.first.size view.second.size, rb)
  | .storeByte i c => (.done, rb.storeByte i c)
  | .commitWrite n =>
    let (can, rb) := rb.commitWrite n
    (.count can, rb)
  | .pop =>
    let (c, rb) := rb.pop
    (.byte c, rb)
  | .prepareRead n =>
    let (view, rb) := rb.prepareRead n
    (.sizes view.first.size view.second.size, rb)
  | .loadByte i => (.byte (some (rb.loadByte i)), rb)
  | .commitRead n =>
    let (can, rb) := rb.commitRead n
    (.count can, rb)
  | .size => (.count rb.size, rb)
  | .clean => (.done, rb.clean)

def inMemory (call : Call) (heap : Heap) (p : Placed) : Out × Placed × Heap :=
  match call with
  | .put c =>
    let (ok, p, heap) := p.put heap c
    (.flag ok, p, heap)
  | .prepareWrite n =>
    let (view, p) := p.prepareWrite n
    (.sizes view.1.size view.2.size, p, heap)
  | .storeByte i c => (.done, p, p.storeAt heap i c)
  | .commitWrite n =>
    let (can, p) := p.commitWrite n
    (.count can, p, heap)
  | .pop =>
    let (c, p) := p.pop heap
    (.byte c, p, heap)
  | .prepareRead n =>
    let (view, p) := p.prepareRead n
    (.sizes view.1.size view.2.size, p, heap)
  | .loadByte i => (.byte (some (p.loadAt heap i)), p, heap)
  | .commitRead n =>
    let (can, p) := p.commitRead n
    (.count can, p, heap)
  | .size => (.count p.size, p, heap)
  | .clean => (.done, p.clean, heap)

def Inside (call : Call) (p : Placed) : Prop :=
  match call with
  | .storeByte i _ => i < p.capacity.toNat
  | .loadByte i => i < p.capacity.toNat
  | _ => True

instance (call : Call) (p : Placed) : Decidable (call.Inside p) := by
  unfold Inside
  split <;> infer_instance

end Call

end Placed

section Mirrors

variable {heap : Heap} {p : Placed} {rb : RingBuffer} {i : Nat}

theorem Mirrors.eq (h : Mirrors heap p rb)
    : ∃ layout, rb = ⟨p.data.map fun q => heap.load q p.capacity.toNat, p.capacity, p.isOwner, p.mask, p.head,
        p.tail, p.pendingW, p.pendingR, layout⟩ := by
  rcases rb with ⟨data, capacity, isOwner, mask, head, tail, pendingW, pendingR, layout⟩
  rcases h with ⟨hdata, _, hcapacity, hisOwner, hmask, hhead, htail, hpendingW, hpendingR⟩
  dsimp only at hdata hcapacity hisOwner hmask hhead htail hpendingW hpendingR
  subst hdata hcapacity hisOwner hmask hhead htail hpendingW hpendingR
  exact ⟨layout, rfl⟩

theorem Mirrors.isValid (h : Mirrors heap p rb) : rb.isValid = p.isValid := by
  unfold RingBuffer.isValid Placed.isValid
  rw [h.data, Option.isSome_map]

theorem Mirrors.bytes (h : Mirrors heap p rb) {q : Ptr} (hq : p.data = some q)
    : rb.bytes = heap.load q p.capacity.toNat := by
  unfold RingBuffer.bytes
  rw [h.data, hq]
  rfl

theorem Mirrors.loadAt (h : Mirrors heap p rb) (hi : i < p.capacity.toNat)
    : p.loadAt heap i = rb.loadByte i := by
  unfold Placed.loadAt RingBuffer.loadByte
  cases hq : p.data with
  | none =>
    unfold RingBuffer.bytes
    rw [h.data, hq]
    rfl
  | some q =>
    dsimp only
    rw [h.bytes hq, Memory.load_add (n := p.capacity.toNat) hi, List.headD_eq_head?_getD, List.head?_take,
      List.head?_drop]
    rfl

theorem Mirrors.storeAt (h : Mirrors heap p rb) (hi : i < p.capacity.toNat) (c : Byte)
    : Mirrors (p.storeAt heap i c) p (rb.storeByte i c) := by
  unfold Placed.storeAt
  cases hq : p.data with
  | none =>
    refine { h with data := ?_, backs := ?_ }
    . unfold RingBuffer.storeByte
      dsimp only
      rw [h.data, hq]
      rfl
    . simp [hq]
  | some q =>
    have hbacks := h.backs q hq
    refine { h with data := ?_, backs := ?_ }
    . unfold RingBuffer.storeByte
      dsimp only
      rw [h.data, hq, Option.map_some, Option.map_some, Option.map_some, Memory.load_store hbacks hi,
        List.splice_singleton]
      rw [hbacks.length_load]
      exact hi
    . intro q' hq'
      cases hq.symm.trans hq'
      apply hbacks.store hi

theorem Mirrors.slot_lt (h : Mirrors heap p rb) (hvalid : p.isValid = true) (x : SizeT)
    : (x &&& p.mask).toNat < p.capacity.toNat := by
  rw [← h.isValid] at hvalid
  rw [← h.mask, ← h.capacity, rb.toNat_and_mask hvalid]
  apply Nat.mod_lt
  exact rb.isValid_iff.mp hvalid

end Mirrors

def Placed.cells (view : ByteSpan × ByteSpan) : List Ptr :=
  view.1.cells ++ view.2.cells

structure Locates (p : Placed) (view : View) (spans : ByteSpan × ByteSpan) : Prop where
  first : spans.1.size = view.first.size
  second : spans.2.size = view.second.size
  cells : ∀ q, p.data = some q → Placed.cells spans = view.slots.map q.add

section Calls

variable {heap : Heap} {p : Placed} {rb : RingBuffer} {i : Nat}

theorem locates_empty (p : Placed) : Locates p .empty (⟨none, 0⟩, ⟨none, 0⟩) :=
  ⟨rfl, rfl, fun _ _ => rfl⟩

theorem Mirrors.split (h : Mirrors heap p rb) (start take : SizeT)
    : Locates p (.split rb.capacity rb.mask start take) (p.split start take) := by
  rw [h.capacity, h.mask]
  refine ⟨rfl, rfl, ?_⟩
  intro q hq
  unfold Placed.cells Placed.split View.split View.slots ByteSpan.cells
  dsimp only
  rw [hq, List.map_append, List.range'_eq_map_range, List.range'_eq_map_range, List.map_map, List.map_map]
  congr 1
  . apply List.map_congr_left
    intro j _
    unfold Ptr.add
    simp
    omega
  . apply List.map_congr_left
    intro j _
    simp

theorem Mirrors.put (h : Mirrors heap p rb) (c : Byte)
    : (p.put heap c).1 = (rb.put c).1 ∧ Mirrors (p.put heap c).2.2 (p.put heap c).2.1 (rb.put c).2 := by
  rcases h.eq with ⟨layout, rfl⟩
  unfold Placed.put RingBuffer.put
  rw [h.isValid]
  split
  . exact ⟨rfl, h⟩
  . next hvalid =>
    have hlt := h.slot_lt (by simpa using hvalid) p.head
    dsimp only
    split
    . exact ⟨rfl, h⟩
    . exact ⟨rfl, { h.storeAt hlt c with head := rfl }⟩

theorem Mirrors.pop (h : Mirrors heap p rb)
    : (p.pop heap).1 = rb.pop.1 ∧ Mirrors heap (p.pop heap).2 rb.pop.2 := by
  rcases h.eq with ⟨layout, rfl⟩
  unfold Placed.pop RingBuffer.pop
  rw [h.isValid]
  split
  . exact ⟨rfl, h⟩
  . next hvalid =>
    have hload := h.loadAt (h.slot_lt (by simpa using hvalid) p.tail)
    dsimp only
    split
    . exact ⟨rfl, h⟩
    . exact ⟨congrArg some hload, { h with tail := rfl }⟩

theorem Mirrors.prepareWrite (h : Mirrors heap p rb) (n : SizeT)
    : Locates p (rb.prepareWrite n).1 (p.prepareWrite n).1
        ∧ Mirrors heap (p.prepareWrite n).2 (rb.prepareWrite n).2 := by
  rcases h.eq with ⟨layout, rfl⟩
  unfold Placed.prepareWrite RingBuffer.prepareWrite prepareWriteAt availableW
  rw [h.isValid]
  dsimp only
  split
  . exact ⟨locates_empty p, h⟩
  . generalize (if p.capacity - (p.head - p.tail) > p.pendingW then
      p.capacity - (p.head - p.tail) - p.pendingW else 0) = available
    split
    . exact ⟨locates_empty p, h⟩
    . exact ⟨h.split _ _, { h with pendingW := rfl }⟩

theorem Mirrors.prepareRead (h : Mirrors heap p rb) (n : SizeT)
    : Locates p (rb.prepareRead n).1 (p.prepareRead n).1
        ∧ Mirrors heap (p.prepareRead n).2 (rb.prepareRead n).2 := by
  rcases h.eq with ⟨layout, rfl⟩
  unfold Placed.prepareRead RingBuffer.prepareRead prepareReadAt availR
  rw [h.isValid]
  dsimp only
  split
  . exact ⟨locates_empty p, h⟩
  . generalize (if p.head - p.tail > p.pendingR then p.head - p.tail - p.pendingR else 0) = avail
    split
    . exact ⟨locates_empty p, h⟩
    . exact ⟨h.split _ _, { h with pendingR := rfl }⟩

theorem Mirrors.commitWrite (h : Mirrors heap p rb) (n : SizeT)
    : (p.commitWrite n).1 = (rb.commitWrite n).1 ∧ Mirrors heap (p.commitWrite n).2 (rb.commitWrite n).2 := by
  rcases h.eq with ⟨layout, rfl⟩
  unfold Placed.commitWrite RingBuffer.commitWrite
  dsimp only
  split
  . exact ⟨rfl, h⟩
  . split
    . exact ⟨rfl, h⟩
    . exact ⟨rfl, { h with head := rfl, pendingW := rfl }⟩

theorem Mirrors.commitRead (h : Mirrors heap p rb) (n : SizeT)
    : (p.commitRead n).1 = (rb.commitRead n).1 ∧ Mirrors heap (p.commitRead n).2 (rb.commitRead n).2 := by
  rcases h.eq with ⟨layout, rfl⟩
  unfold Placed.commitRead RingBuffer.commitRead
  dsimp only
  split
  . exact ⟨rfl, h⟩
  . split
    . exact ⟨rfl, h⟩
    . exact ⟨rfl, { h with tail := rfl, pendingR := rfl }⟩

theorem Mirrors.clean (h : Mirrors heap p rb) : Mirrors heap p.clean rb.clean :=
  { h with head := rfl, tail := rfl, pendingW := rfl, pendingR := rfl }

theorem Mirrors.size (h : Mirrors heap p rb) : p.size = rb.size := by
  unfold Placed.size RingBuffer.size
  rw [h.head, h.tail]

theorem Mirrors.call (h : Mirrors heap p rb) {call : Placed.Call} (hinside : call.Inside p)
    : (call.inMemory heap p).1 = (call.byValue rb).1
        ∧ Mirrors (call.inMemory heap p).2.2 (call.inMemory heap p).2.1 (call.byValue rb).2 := by
  cases call with
  | put c =>
    have hput := h.put c
    exact ⟨congrArg Placed.Out.flag hput.1, hput.2⟩
  | prepareWrite n =>
    have hprepare := h.prepareWrite n
    exact ⟨congrArg₂ Placed.Out.sizes hprepare.1.first hprepare.1.second, hprepare.2⟩
  | storeByte i c => exact ⟨rfl, h.storeAt hinside c⟩
  | commitWrite n =>
    have hcommit := h.commitWrite n
    exact ⟨congrArg Placed.Out.count hcommit.1, hcommit.2⟩
  | pop =>
    have hpop := h.pop
    exact ⟨congrArg Placed.Out.byte hpop.1, hpop.2⟩
  | prepareRead n =>
    have hprepare := h.prepareRead n
    exact ⟨congrArg₂ Placed.Out.sizes hprepare.1.first hprepare.1.second, hprepare.2⟩
  | loadByte i =>
    have hload := h.loadAt hinside
    exact ⟨congrArg (fun c => Placed.Out.byte (some c)) hload, h⟩
  | commitRead n =>
    have hcommit := h.commitRead n
    exact ⟨congrArg Placed.Out.count hcommit.1, hcommit.2⟩
  | size => exact ⟨congrArg Placed.Out.count h.size, h⟩
  | clean => exact ⟨rfl, h.clean⟩

structure Stays (heap heap' : Heap) (p p' : Placed) : Prop where
  data : p'.data = p.data
  capacity : p'.capacity = p.capacity
  isOwner : p'.isOwner = p.isOwner
  heap : heap' = heap
    ∨ ∃ q i c, p.data = some q ∧ i < p.capacity.toNat ∧ heap' = heap.store (q.add i) [c]

theorem Stays.refl (heap : Heap) (p : Placed) : Stays heap heap p p :=
  ⟨rfl, rfl, rfl, .inl rfl⟩

theorem stays_storeAt (heap : Heap) {i : Nat} (hi : i < p.capacity.toNat) (c : Byte)
    : Stays heap (p.storeAt heap i c) p p := by
  refine ⟨rfl, rfl, rfl, ?_⟩
  unfold Placed.storeAt
  split
  . exact .inl rfl
  . next q hq => exact .inr ⟨q, i, c, hq, hi, rfl⟩

theorem Mirrors.stays (h : Mirrors heap p rb) {call : Placed.Call} (hinside : call.Inside p)
    : Stays heap (call.inMemory heap p).2.2 p (call.inMemory heap p).2.1 := by
  cases call with
  | put c =>
    unfold Placed.Call.inMemory Placed.put
    dsimp only
    split
    . exact .refl heap p
    . next hvalid =>
      have hlt := h.slot_lt (by simpa using hvalid) p.head
      split
      . exact .refl heap p
      . exact { stays_storeAt heap hlt c with data := rfl, capacity := rfl, isOwner := rfl }
  | prepareWrite n =>
    unfold Placed.Call.inMemory Placed.prepareWrite
    dsimp only
    split
    . exact .refl heap p
    . generalize min n _ = take
      split
      . exact .refl heap p
      . exact ⟨rfl, rfl, rfl, .inl rfl⟩
  | storeByte i c => exact stays_storeAt heap hinside c
  | commitWrite n =>
    unfold Placed.Call.inMemory Placed.commitWrite
    dsimp only
    split
    . exact .refl heap p
    . split
      . exact .refl heap p
      . exact ⟨rfl, rfl, rfl, .inl rfl⟩
  | pop =>
    unfold Placed.Call.inMemory Placed.pop
    dsimp only
    split
    . exact .refl heap p
    . split
      . exact .refl heap p
      . exact ⟨rfl, rfl, rfl, .inl rfl⟩
  | prepareRead n =>
    unfold Placed.Call.inMemory Placed.prepareRead
    dsimp only
    split
    . exact .refl heap p
    . generalize min n _ = take
      split
      . exact .refl heap p
      . exact ⟨rfl, rfl, rfl, .inl rfl⟩
  | loadByte i => exact .refl heap p
  | commitRead n =>
    unfold Placed.Call.inMemory Placed.commitRead
    dsimp only
    split
    . exact .refl heap p
    . split
      . exact .refl heap p
      . exact ⟨rfl, rfl, rfl, .inl rfl⟩
  | size => exact .refl heap p
  | clean => exact ⟨rfl, rfl, rfl, .inl rfl⟩

end Calls

end RingBuffer

end Sfap
