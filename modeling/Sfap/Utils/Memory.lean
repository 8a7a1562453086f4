import Sfap.Lib.Memory
import Sfap.Lib.Word

/-!
This module contains the machine types of `sfap` and the heap that its buffers live on.
-/

namespace Sfap

abbrev SizeT := UInt64

abbrev Byte := UInt8

abbrev Heap := Memory Byte

def ptrdiffMax : Nat := 2 ^ 63 - 1

/--
`new (std::nothrow) std::byte[n]`, where `garbage` is what the new bytes hold or `none` when the
allocation fails.
-/
def Heap.newBytes (heap : Heap) (n : SizeT) (garbage : Option (Nat → Byte)) : Option Ptr × Heap :=
  match garbage with
  | none => (none, heap)
  | some g =>
    if n.toNat ≤ ptrdiffMax then
      let (p, heap) := heap.alloc ((List.range n.toNat).map g)
      (some p, heap)
    else
      (none, heap)

def Heap.deleteBytes (heap : Heap) (data : Option Ptr) : Heap :=
  match data with
  | none => heap
  | some p => heap.free p

-- `std::span<std::byte>` or `std::string_view` as a value
structure ByteSpan where
  data : Option Ptr
  size : SizeT
  deriving DecidableEq, Repr

def Heap.bytes (heap : Heap) (span : ByteSpan) : List Byte :=
  match span.data with
  | none => []
  | some p => heap.load p span.size.toNat

structure Source where
  bytes : List Byte
  lt : bytes.length < 2 ^ 64

namespace Source

def size (source : Source) : SizeT := .ofNat source.bytes.length

def empty (source : Source) : Bool := source.size == 0

def single (c : Byte) : Source := ⟨[c], by simp⟩

@[simp]
theorem toNat_size (source : Source) : source.size.toNat = source.bytes.length := by
  unfold size
  rw [UInt64.toNat_ofNat']
  apply Nat.mod_eq_of_lt source.lt

end Source

end Sfap
