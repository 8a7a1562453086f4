import Sfap.Lib.Circular
import Sfap.Utils.Memory

/-!
This module contains the single producer single consumer byte ring buffer `sfap::RingBuffer`. The
storage behind `data_` is reached through one buffer only, so it is part of the buffer's value.
-/

namespace Sfap

structure Span where
  pos : SizeT
  size : SizeT
  deriving DecidableEq, Repr

structure View where
  first : Span
  second : Span
  deriving DecidableEq, Repr

namespace View

def empty : View := ⟨⟨0, 0⟩, ⟨0, 0⟩⟩

def size (view : View) : SizeT :=
  view.first.size + view.second.size

/--
The part of a view that both `prepare` functions compute: `take` bytes from counter `start` on.
-/
def split (capacity mask start take : SizeT) : View :=
  let pos := start &&& mask
  let first := min take (capacity - pos)
  let second := take - first
  ⟨⟨pos, first⟩, ⟨0, second⟩⟩

def slots (view : View) : List Nat :=
  List.range' view.first.pos.toNat view.first.size.toNat
    ++ List.range' view.second.pos.toNat view.second.size.toNat

end View

def RingBuffer.Layout (data : Option (List Byte)) (capacity mask : SizeT) : Prop :=
  match data with
  | none => capacity = 0 ∧ mask = 0
  | some bytes =>
    (∃ b, capacity.toNat = 2 ^ b) ∧ bytes.length = capacity.toNat ∧ mask = capacity - 1

structure RingBuffer where
  data : Option (List Byte)
  capacity : SizeT
  isOwner : Bool
  mask : SizeT
  head : SizeT
  tail : SizeT
  pendingW : SizeT
  pendingR : SizeT
  layout : RingBuffer.Layout data capacity mask

namespace RingBuffer

theorem layout_construct {n : SizeT} (data : Option (Vector Byte n.toNat))
    (h : data.isSome = true → Word.hasSingleBit n = true)
    : Layout (data.map (·.toList)) (if data.isSome then n else 0)
        (if (if data.isSome then n else 0) != 0 then (if data.isSome then n else 0) - 1 else 0) := by
  cases data with
  | none => simp [Layout]
  | some storage =>
    have hbit := h rfl
    have hne : n ≠ 0 := by
      simp only [Word.hasSingleBit, Bool.and_eq_true, bne_iff_ne] at hbit
      exact hbit.1
    simpa [Layout, hne] using (Word.hasSingleBit_iff n).mp hbit

-- `storage` is what `new (std::nothrow) std::byte[n]` returns
def ofSize (n : SizeT) (storage : Option (Vector Byte n.toNat)) : RingBuffer :=
  let data := if n != 0 && Word.hasSingleBit n then storage else none
  let capacity := if data.isSome then n else 0
  {
    data := data.map (·.toList)
    capacity := capacity
    isOwner := data.isSome
    mask := if capacity != 0 then capacity - 1 else 0
    head := 0
    tail := 0
    pendingW := 0
    pendingR := 0
    layout := by
      apply layout_construct
      intro h
      by_cases hbit : (n != 0 && Word.hasSingleBit n) = true
      . exact (Bool.and_eq_true _ _ ▸ hbit).2
      . simp [data, hbit] at h
  }

def ofExternal (n : SizeT) (external : Vector Byte n.toNat) : RingBuffer :=
  let data := if n == 0 || !Word.hasSingleBit n then none else some external
  let capacity := if data.isSome then n else 0
  {
    data := data.map (·.toList)
    capacity := capacity
    isOwner := false
    mask := if capacity != 0 then capacity - 1 else 0
    head := 0
    tail := 0
    pendingW := 0
    pendingR := 0
    layout := by
      apply layout_construct
      intro h
      by_cases hbit : Word.hasSingleBit n = true
      . exact hbit
      . simp [data, hbit] at h
  }

-- what `std::exchange` leaves behind
def movedFrom : RingBuffer where
  data := none
  capacity := 0
  isOwner := false
  mask := 0
  head := 0
  tail := 0
  pendingW := 0
  pendingR := 0
  layout := ⟨rfl, rfl⟩

-- both moves give the target and what becomes of `other`
def moveConstruct (other : RingBuffer) : RingBuffer × RingBuffer :=
  (other, movedFrom)

-- only for `this != &other`, and the storage that `_self` owns is released
def moveAssign (_self other : RingBuffer) : RingBuffer × RingBuffer :=
  (other, movedFrom)

def isValid (rb : RingBuffer) : Bool :=
  rb.data.isSome

def size (rb : RingBuffer) : SizeT :=
  rb.head - rb.tail

def free (rb : RingBuffer) : SizeT :=
  rb.capacity - rb.size

def empty (rb : RingBuffer) : Bool :=
  rb.size == 0

def full (rb : RingBuffer) : Bool :=
  rb.size == rb.capacity

def clean (rb : RingBuffer) : RingBuffer :=
  { rb with head := 0, tail := 0, pendingW := 0, pendingR := 0 }

def bytes (rb : RingBuffer) : List Byte :=
  rb.data.getD []

def loadByte (rb : RingBuffer) (slot : Nat) : Byte :=
  rb.bytes.getD slot default

def storeByte (rb : RingBuffer) (slot : Nat) (c : Byte) : RingBuffer :=
  {
    rb with
    data := rb.data.map (·.set slot c)
    layout := by
      have := rb.layout
      cases h : rb.data <;> simpa [Layout, h] using this
  }

def availableW (rb : RingBuffer) (t h : SizeT) : SizeT :=
  let used := h - t
  let free := rb.capacity - used
  if free > rb.pendingW then free - rb.pendingW else 0

-- `prepareWrite` once `tail_` and `head_` have been loaded as `t` and `h`
def prepareWriteAt (rb : RingBuffer) (t h n : SizeT) : View × RingBuffer :=
  let take := min n (rb.availableW t h)
  if take == 0 then
    (.empty, rb)
  else
    (.split rb.capacity rb.mask h take, { rb with pendingW := rb.pendingW + take })

def prepareWrite (rb : RingBuffer) (n : SizeT) : View × RingBuffer :=
  if !rb.isValid || n == 0 then
    (.empty, rb)
  else
    rb.prepareWriteAt rb.tail rb.head n

def commitWrite (rb : RingBuffer) (n : SizeT) : SizeT × RingBuffer :=
  if n == 0 then
    (0, rb)
  else
    let can := min n rb.pendingW
    if can == 0 then
      (0, rb)
    else
      let h := rb.head
      let newH := can + h
      (can, { rb with head := newH, pendingW := rb.pendingW - can })

def put (rb : RingBuffer) (c : Byte) : Bool × RingBuffer :=
  if !rb.isValid then
    (false, rb)
  else
    let t := rb.tail
    let h := rb.head
    if rb.capacity - (h - t) == 0 then
      (false, rb)
    else
      let rb := rb.storeByte (h &&& rb.mask).toNat c
      (true, { rb with head := h + 1 })

def availR (rb : RingBuffer) (h t : SizeT) : SizeT :=
  let s := h - t
  if s > rb.pendingR then s - rb.pendingR else 0

-- `prepareRead` once `head_` and `tail_` have been loaded as `h` and `t`
def prepareReadAt (rb : RingBuffer) (h t n : SizeT) : View × RingBuffer :=
  let take := min n (rb.availR h t)
  if take == 0 then
    (.empty, rb)
  else
    (.split rb.capacity rb.mask t take, { rb with pendingR := rb.pendingR + take })

def prepareRead (rb : RingBuffer) (n : SizeT) : View × RingBuffer :=
  if !rb.isValid || n == 0 then
    (.empty, rb)
  else
    rb.prepareReadAt rb.head rb.tail n

def commitRead (rb : RingBuffer) (n : SizeT) : SizeT × RingBuffer :=
  if n == 0 then
    (0, rb)
  else
    let can := min n rb.pendingR
    if can == 0 then
      (0, rb)
    else
      let t := rb.tail
      let newT := t + can
      (can, { rb with tail := newT, pendingR := rb.pendingR - can })

-- `none` leaves the destination byte alone
def pop (rb : RingBuffer) : Option Byte × RingBuffer :=
  if !rb.isValid then
    (none, rb)
  else
    let h := rb.head
    let t := rb.tail
    if h - t == 0 then
      (none, rb)
    else
      let c := rb.loadByte (t &&& rb.mask).toNat
      (some c, { rb with tail := t + 1 })

end RingBuffer

end Sfap
