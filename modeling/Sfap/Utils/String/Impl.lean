import Sfap.Utils.Buffer.Impl

/-!
This module contains the null-terminated string `sfap::String` over a byte buffer whose last used byte
is the terminator.
-/

namespace Sfap

theorem Heap.length_bytes_le (heap : Heap) (span : ByteSpan)
    : (heap.bytes span).length ≤ span.size.toNat := by
  unfold Heap.bytes
  split
  . simp
  . apply Memory.length_load_le

def Source.ofSpan (heap : Heap) (span : ByteSpan) : Source where
  bytes := heap.bytes span
  lt := Nat.lt_of_le_of_lt (heap.length_bytes_le span) (UInt64.toNat_lt span.size)

-- the memory from a `const char*` on
structure CString where
  bytes : List Byte
  terminated : 0 ∈ bytes
  le : bytes.length ≤ ptrdiffMax

namespace CString

def strlen (source : CString) : SizeT :=
  .ofNat (source.bytes.findIdx (· == 0))

-- `std::string_view{source, std::strlen(source)}`
def chars (source : CString) : Source where
  bytes := source.bytes.take source.strlen.toNat
  lt := by
    have := source.le
    unfold ptrdiffMax at this
    rw [List.length_take]
    omega

-- `{source, source ? std::strlen(source) : 0}`
def charsOf : Option CString → Source
  | none => ⟨[], by decide⟩
  | some source => source.chars

end CString

structure String where
  data : Buffer

namespace String

def isValid (s : String) : Bool :=
  s.data.isValid

def capacity (s : String) : SizeT :=
  if s.isValid then s.data.capacity - 1 else 0

def size (s : String) : SizeT :=
  if s.isValid then s.data.size - 1 else 0

def empty (s : String) : Bool :=
  s.size == 0

def view (s : String) : ByteSpan :=
  if s.isValid then ⟨s.data.data, s.size⟩ else ⟨none, 0⟩

def atIndex (heap : Heap) (s : String) (i : SizeT) : Option Byte :=
  if !s.isValid || i ≥ s.size then none else some (s.data.loadAt heap i)

def resize (heap : Heap) (s : String) (n : SizeT) : Bool × String × Heap :=
  if !s.isValid || n > s.capacity then
    (false, s, heap)
  else
    let (ok, data) := s.data.resize (n + 1)
    if !ok then
      (false, s, heap)
    else
      let s : String := ⟨data⟩
      (true, s, s.data.storeAt heap s.size 0)

def assign (heap : Heap) (s : String) (source : Source) : Bool × String × Heap :=
  if !s.isValid || source.size > s.capacity then
    (false, s, heap)
  else
    let (ok, s, heap) := s.resize heap source.size
    if !ok then
      (false, s, heap)
    else
      (true, s, s.data.copyAt heap 0 source.bytes)

def assignCString (heap : Heap) (s : String) (source : Option CString) : Bool × String × Heap :=
  s.assign heap (CString.charsOf source)

def append (heap : Heap) (s : String) (source : Source) : Bool × String × Heap :=
  if !s.isValid || s.size + source.size > s.capacity then
    (false, s, heap)
  else
    let oldSize := s.size
    let (ok, s, heap) := s.resize heap (s.size + source.size)
    if !ok then
      (false, s, heap)
    else
      (true, s, s.data.copyAt heap oldSize source.bytes)

def appendCString (heap : Heap) (s : String) (source : Option CString) : Bool × String × Heap :=
  s.append heap (CString.charsOf source)

def pushBack (heap : Heap) (s : String) (ch : Byte) : Bool × String × Heap :=
  if !s.isValid then
    (false, s, heap)
  else if s.size ≥ s.capacity then
    (false, s, heap)
  else
    let (ok, s, heap) := s.resize heap (s.size + 1)
    if !ok then
      (false, s, heap)
    else
      (true, s, s.data.storeAt heap (s.size - 1) ch)

def clean (heap : Heap) (s : String) : String × Heap :=
  let (_, s, heap) := s.resize heap 0
  (s, heap)

def subview (s : String) (start count : SizeT) : Option ByteSpan :=
  match s.data.data with
  | none => none
  | some p =>
    if start > s.size then
      none
    else if count == 0 then
      some ⟨some (p.add start.toNat), s.size - start⟩
    else if start + count > s.size then
      none
    else
      some ⟨some (p.add start.toNat), count⟩

def findChar (heap : Heap) (s : String) (c : Byte) (start : SizeT) : Option SizeT :=
  if !s.isValid then
    none
  else if start ≥ s.size then
    none
  else
    s.data.findByte heap c start

def find (heap : Heap) (s : String) (pattern : Source) (start : SizeT) : Option SizeT :=
  if !s.isValid then
    none
  else if start + pattern.size > s.size then
    none
  else
    s.data.find heap pattern start

def ofSize (heap : Heap) (n : SizeT) (garbage : Option (Nat → Byte)) : String × Heap :=
  let (data, heap) := Buffer.ofCapacity heap (n + 1) garbage
  let (_, s, heap) := resize heap ⟨data⟩ 0
  (s, heap)

def ofView (heap : Heap) (source : Source) (garbage : Option (Nat → Byte)) : String × Heap :=
  let (s, heap) := ofSize heap source.size garbage
  if s.isValid then
    let (_, s, heap) := s.assign heap source
    (s, heap)
  else
    (s, heap)

def ofCString (heap : Heap) (source : Option CString) (garbage : Option (Nat → Byte))
    : String × Heap :=
  match source with
  | none =>
    let (data, heap) := Buffer.ofCapacity heap 0 garbage
    (⟨data⟩, heap)
  | some chars =>
    let (data, heap) := Buffer.ofCapacity heap (chars.strlen + 1) garbage
    let s : String := ⟨data⟩
    if s.isValid then
      let (_, s, heap) := s.assignCString heap source
      (s, heap)
    else
      (s, heap)

def copy (heap : Heap) (other : String) (garbage : Option (Nat → Byte)) : String × Heap :=
  let (s, heap) := ofSize heap other.size garbage
  if s.isValid then
    let (_, s, heap) := s.assign heap (.ofSpan heap other.view)
    (s, heap)
  else
    (s, heap)

def moveConstruct (other : String) : String × String :=
  let (data, rest) := other.data.moveConstruct
  (⟨data⟩, ⟨rest⟩)

-- only for `this != &other`
def moveAssign (heap : Heap) (s other : String) : String × String × Heap :=
  let (data, rest, heap) := s.data.moveAssign heap other.data
  (⟨data⟩, ⟨rest⟩, heap)

def destroy (heap : Heap) (s : String) : Heap :=
  s.data.destroy heap

end String

end Sfap
