import Sfap.Net.IOUring.Impl

/-!
This module contains the socket of a connection: a handle with a pointer to the proactor that it is
registered with.
-/

namespace Sfap

namespace Net

-- the address of a proactor
abbrev ProactorPtr := Nat

structure Socket where
  owner : Option ProactorPtr
  handle : SocketT
  deriving DecidableEq, Repr

namespace Socket

def default : Socket := ⟨none, 0⟩

def isValid (s : Socket) : Bool :=
  s.owner.isSome && s.handle != 0

-- both copies are defaulted
def copyConstruct (other : Socket) : Socket := other

def copyAssign (_self other : Socket) : Socket := other

def moveConstruct (other : Socket) : Socket × Socket :=
  (⟨other.owner, other.handle⟩, ⟨none, 0⟩)

-- `owner_` is the proactor `p`
def destroy (p : IOUringProactor) (s : Socket) : IOUringProactor :=
  if s.owner.isSome && s.handle != 0 then p.close s.handle else p

-- only for `this != &other`
def moveAssign (p : IOUringProactor) (s other : Socket) : Socket × Socket × IOUringProactor :=
  let p := if s.isValid then p.close s.handle else p
  (⟨other.owner, other.handle⟩, ⟨none, 0⟩, p)

end Socket

end Net

end Sfap
