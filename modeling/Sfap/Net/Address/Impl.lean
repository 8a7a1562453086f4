import Sfap.Error
import Sfap.Net.Types
import Sfap.Utils.String.CStr

/-!
This module contains `sfap::net::Address`: an IP address with a port, and the name it comes from.
-/

namespace Sfap

namespace Net

structure Address where
  address : Option InternalAddress
  origin : Option String

/--
What one call of `from_hostname` is told by what it calls.
-/
structure Answers where
  -- `detect_address_kind(hostname)`
  kind : Except ErrorCode AddressKind
  -- `resolve(hostname)`
  resolved : Except ErrorCode Ipx
  -- what the storage of `String(hostname)` holds, or `none` if there is none
  garbage : Option (Nat → Byte)
  call : Nat

-- an error is equal to no kind
def Answers.isKind (answers : Answers) (kind : AddressKind) : Bool :=
  match answers.kind with
  | .ok detected => detected == kind
  | .error _ => false

namespace Address

-- `address_->ip_ = ip` or `address_ = {ip, 0}`
def putIp (a : Address) (ip : Ipx) : Address :=
  match a.address with
  | some address => { a with address := some { address with ip := ip } }
  | none => { a with address := some ⟨ip, 0⟩ }

-- `origin_.reset()`
def resetOrigin (heap : Heap) (a : Address) : Address × Heap :=
  match a.origin with
  | some origin => ({ a with origin := none }, origin.destroy heap)
  | none => (a, heap)

def fromIp (heap : Heap) (a : Address) (ip : Ipx) : Address × Heap :=
  let (a, heap) := a.resetOrigin heap
  (a.putIp ip, heap)

-- `none` if the pointer is read where it points to nothing any more
def fromHostname (heap : Heap) (a : Address) (hostname : CharPtr) (answers : Answers)
    : Option (ErrorCode × Address × Heap) :=
  if answers.isKind .empty || answers.isKind .unknown then
    some (.genericError .invalidArgument, a, heap)
  else
    match answers.resolved with
    | .error error => some (error, a, heap)
    | .ok ip =>
      let (a, heap) := a.resetOrigin heap
      let a := a.putIp ip
      if answers.isKind .hostname then
        match hostname.read heap with
        | none => none
        | some source =>
          let (origin, heap) := String.ofCString heap source answers.garbage
          some (.noError answers.call, { a with origin := some origin }, heap)
      else
        some (.noError answers.call, a, heap)

def fromHostnameString (heap : Heap) (a : Address) (hostname : String) (answers : Answers)
    : Option (ErrorCode × Address × Heap) :=
  a.fromHostname heap hostname.cStr answers

def setPort (a : Address) (port : PortT) : Address :=
  match a.address with
  | some address => { a with address := some { address with port := port } }
  | none => a

def getAddress (a : Address) : Option InternalAddress :=
  a.address

def getOrigin (a : Address) : Option ByteSpan :=
  match a.origin with
  | none => none
  | some origin => some origin.view

def isValid (a : Address) : Bool :=
  a.address.isSome

def isBindable (a : Address) : Bool :=
  a.address.isSome

def isConnectable (a : Address) : Bool :=
  match a.address with
  | none => false
  | some address => !address.ip.isAny && address.port != 0

def clear (heap : Heap) (a : Address) : Address × Heap :=
  let a := { a with address := none }
  a.resetOrigin heap

def default : Address := ⟨none, none⟩

def ofIp (heap : Heap) (ip : Ipx) (port : PortT) : Address × Heap :=
  let (a, heap) := default.fromIp heap ip
  (a.setPort port, heap)

def ofHostname (heap : Heap) (hostname : CharPtr) (port : PortT) (answers : Answers)
    : Option (Address × Heap) :=
  match default.fromHostname heap hostname answers with
  | none => none
  | some (_, a, heap) => some (a.setPort port, heap)

def ofHostnameString (heap : Heap) (hostname : String) (port : PortT) (answers : Answers)
    : Option (Address × Heap) :=
  match default.fromHostnameString heap hostname answers with
  | none => none
  | some (_, a, heap) => some (a.setPort port, heap)

theorem isConnectable_iff (a : Address)
    : a.isConnectable = true
        ↔
      ∃ address, a.address = some address ∧ (∃ b ∈ address.ip.data, b ≠ 0) ∧ address.port ≠ 0 := by
  unfold isConnectable
  cases ha : a.address with
  | none => simp
  | some address =>
    have hany : address.ip.isAny = false ↔ ∃ b ∈ address.ip.data, b ≠ 0 := by
      rw [← Bool.not_eq_true, Ipx.isAny_iff]
      simp
    simp [hany]

end Address

end Net

end Sfap
