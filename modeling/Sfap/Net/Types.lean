import Sfap.Error
import Sfap.Utils.Memory

/-!
This module contains the basic network types.
-/

namespace Sfap

namespace Net

abbrev SocketT := UInt32

-- in host byte order
abbrev PortT := UInt16

-- in network byte order
abbrev Ip4 := Vector UInt8 4

abbrev Ip6 := Vector UInt8 16

inductive Ipx where
  | v4 (address : Ip4)
  | v6 (address : Ip6)
  deriving DecidableEq, Repr

namespace Ipx

def is4 : Ipx → Bool
  | .v4 _ => true
  | .v6 _ => false

-- the `size()` bytes behind `data()`
def data : Ipx → List UInt8
  | .v4 address => address.toList
  | .v6 address => address.toList

def size : Ipx → Nat
  | .v4 _ => 4
  | .v6 _ => 16

def zeros : Ip6 := Vector.replicate 16 0

def isAny (ip : Ipx) : Bool :=
  ip.data == zeros.toList.take ip.size

theorem length_data (ip : Ipx) : ip.data.length = ip.size := by
  cases ip with
  | v4 address => exact address.size_toArray
  | v6 address => exact address.size_toArray

theorem isAny_iff (ip : Ipx) : ip.isAny = true ↔ ∀ b ∈ ip.data, b = 0 := by
  have hzeros : zeros.toList.take ip.size = List.replicate ip.data.length 0 := by
    rw [ip.length_data]
    cases ip with
    | v4 address => rfl
    | v6 address => rfl
  unfold isAny
  rw [beq_iff_eq, hzeros, List.eq_replicate_iff]
  simp

end Ipx

inductive AddressKind where
  | unknown
  | empty
  | ip4
  | ip6
  | hostname
  deriving DecidableEq, Repr

structure InternalAddress where
  ip : Ipx
  port : PortT
  deriving DecidableEq, Repr

end Net

end Sfap
