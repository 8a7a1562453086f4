import Sfap.Lib.Search
import Sfap.Utils.Memory

/-!
This module contains the byte buffer `sfap::Buffer`: a pointer to storage that it may own, and how much
of that storage is in use.
-/

namespace Sfap

def Buffer.WellFormed (data : Option Ptr) (capacity size : SizeT) : Prop :=
  size.toNat ≤ capacity.toNat ∧ (data = none → capacity = 0)

structure Buffer where
  data : Option Ptr
  capacity : SizeT
  owner : Bool
  size : SizeT
  wellFormed : Buffer.WellFormed data capacity size

namespace Buffer

theorem wellFormed_construct (data : Option Ptr) (n : SizeT)
    : WellFormed data (if data.isSome then n else 0) 0 := by
  constructor
  . simp
  . intro h
    simp [h]

-- `garbage` is what `new (std::nothrow) std::byte[capacity]` returns
def ofCapacity (heap : Heap) (capacity : SizeT) (garbage : Option (Nat → Byte)) : Buffer × Heap :=
  let (data, heap) := if capacity != 0 then heap.newBytes capacity garbage else (none, heap)
  ({
    data := data
    capacity := if data.isSome then capacity else 0
    owner := true
    size := 0
    wellFormed := wellFormed_construct data capacity
  }, heap)

def ofExternal (external : ByteSpan) : Buffer :=
  let data := if external.data.isNone || external.size == 0 then none else external.data
  {
    data := data
    capacity := if data.isSome then external.size else 0
    owner := false
    size := 0
    wellFormed := wellFormed_construct data external.size
  }

-- what `std::exchange` leaves behind
def movedFrom : Buffer where
  data := none
  capacity := 0
  owner := false
  size := 0
  wellFormed := ⟨Nat.le_refl _, fun _ => rfl⟩

def moveConstruct (other : Buffer) : Buffer × Buffer :=
  (other, movedFrom)

def destroy (heap : Heap) (b : Buffer) : Heap :=
  if b.owner then heap.deleteBytes b.data else heap

-- only for `this != &other`
def moveAssign (heap : Heap) (b other : Buffer) : Buffer × Buffer × Heap :=
  (other, movedFrom, b.destroy heap)

def isValid (b : Buffer) : Bool :=
  b.data.isSome

def free (b : Buffer) : SizeT :=
  if b.isValid then b.capacity - b.size else 0

def empty (b : Buffer) : Bool :=
  if b.isValid then b.size == 0 else true

def full (b : Buffer) : Bool :=
  if b.isValid then b.size == b.capacity else false

def eq (heap : Heap) (b other : Buffer) : Bool :=
  if b.size != other.size then
    false
  else if b.data == other.data then
    true
  else
    match b.data, other.data with
    | some p, some q => heap.load p b.size.toNat == heap.load q b.size.toNat
    | _, _ => false

def clean (b : Buffer) : Buffer :=
  { b with size := 0, wellFormed := ⟨Nat.zero_le _, b.wellFormed.2⟩ }

def resize (b : Buffer) (n : SizeT) : Bool × Buffer :=
  if h : n > b.capacity then
    (false, b)
  else
    (true, {
      b with
      size := n
      wellFormed := ⟨Nat.le_of_not_lt (mt UInt64.lt_iff_toNat_lt.mpr h), b.wellFormed.2⟩
    })

def view (b : Buffer) : ByteSpan :=
  if b.isValid then ⟨b.data, b.size⟩ else ⟨none, 0⟩

def loadAt (heap : Heap) (b : Buffer) (i : SizeT) : Byte :=
  match b.data with
  | none => default
  | some p => (heap.load (p.add i.toNat) 1).headD default

def storeAt (heap : Heap) (b : Buffer) (i : SizeT) (c : Byte) : Heap :=
  match b.data with
  | none => heap
  | some p => heap.store (p.add i.toNat) [c]

-- `std::memcpy(data_ + i, ...)`
def copyAt (heap : Heap) (b : Buffer) (i : SizeT) (bytes : List Byte) : Heap :=
  match b.data with
  | none => heap
  | some p => heap.store (p.add i.toNat) bytes

def atIndex (heap : Heap) (b : Buffer) (i : SizeT) : Option Byte :=
  if !b.isValid then
    none
  else if i ≥ b.size then
    none
  else
    some (b.loadAt heap i)

def findByte (heap : Heap) (b : Buffer) (c : Byte) (start : SizeT) : Option SizeT :=
  match b.data with
  | none => none
  | some p =>
    if start ≥ b.size then
      none
    else
      -- `std::find` from `begin() + from` to `end()`
      let range := heap.load (p.add start.toNat) (b.size - start).toNat
      let position := range.findIdx (· == c)
      if position = range.length then none else some (start + .ofNat position)

def find (heap : Heap) (b : Buffer) (pattern : Source) (start : SizeT) : Option SizeT :=
  match b.data with
  | none => none
  | some p =>
    if pattern.empty then
      none
    else if b.size < pattern.size then
      none
    else if start > b.size - pattern.size then
      none
    else
      -- `std::search` from `begin() + from` to `end()`
      let range := heap.load (p.add start.toNat) (b.size - start).toNat
      let position := Search.search pattern.bytes range
      if position = range.length then none else some (start + .ofNat position)

def assign (heap : Heap) (b : Buffer) (source : Source) : Bool × Buffer × Heap :=
  if !b.isValid then
    (false, b, heap)
  else if source.empty then
    (true, b.clean, heap)
  else if source.size > b.capacity then
    (false, b, heap)
  else
    let heap := b.copyAt heap 0 source.bytes
    let (ok, b) := b.resize source.size
    (ok, b, heap)

def append (heap : Heap) (b : Buffer) (source : Source) : Bool × Buffer × Heap :=
  if !b.isValid then
    (false, b, heap)
  else if source.empty then
    (true, b, heap)
  else if b.size + source.size > b.capacity then
    (false, b, heap)
  else
    let oldSize := b.size
    let (ok, b) := b.resize (b.size + source.size)
    if !ok then
      (false, b, heap)
    else
      (true, b, b.copyAt heap oldSize source.bytes)

def pushBack (heap : Heap) (b : Buffer) (c : Byte) : Bool × Buffer × Heap :=
  if !b.isValid then
    (false, b, heap)
  else if h : b.size ≥ b.capacity then
    (false, b, heap)
  else
    let heap := b.storeAt heap b.size c
    (true, {
      b with
      size := b.size + 1
      wellFormed := by
        refine ⟨?_, b.wellFormed.2⟩
        rw [ge_iff_le, UInt64.le_iff_toNat_le] at h
        have := UInt64.toNat_lt b.capacity
        rw [Word.toNat_add_of_lt] <;> simp only [UInt64.toNat_one] <;> omega
    }, heap)

-- the mutable overload
def subviewMut (b : Buffer) (start count : SizeT) : Option ByteSpan :=
  match b.data with
  | none => none
  | some p =>
    if start > b.size then
      none
    else if count > b.size - start then
      none
    else
      some ⟨some (p.add start.toNat), count⟩

-- the const overload
def subview (b : Buffer) (start count : SizeT) : Option ByteSpan :=
  match b.data with
  | none => none
  | some p =>
    if start > b.size then
      none
    else if count == 0 then
      some ⟨some (p.add start.toNat), b.size - start⟩
    else if start + count > b.size then
      none
    else
      some ⟨some (p.add start.toNat), count⟩

end Buffer

end Sfap
