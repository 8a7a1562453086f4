import Mathlib.Logic.Function.Basic
import Sfap.Utils.Buffer.Impl

/-!
This module contains what a buffer is for: a bounded array of bytes whose front is in use. Several
buffers may be windows onto one array, and no array ever goes away.
-/

namespace Sfap

structure Window where
  array : Nat
  offset : Nat
  capacity : Nat
  used : Nat
  le : used ≤ capacity

namespace Window

def withUsed (x : Window) (n : Nat) (h : n ≤ x.capacity) : Window :=
  { x with used := n, le := h }

-- all bytes of the window, also those that are not in use
def storage (arrays : Nat → Option (List Byte)) (x : Window) : List Byte :=
  (((arrays x.array).getD []).drop x.offset).take x.capacity

def view (arrays : Nat → Option (List Byte)) (x : Window) : List Byte :=
  (x.storage arrays).take x.used

end Window

namespace Buffer

inductive Op where
  | ofCapacity (v : Nat) (capacity : SizeT) (garbage : Option (Nat → Byte))
  | ofExternal (v : Nat) (external : ByteSpan)
  | destroy (v : Nat)
  | assign (v : Nat) (source : Source)
  | append (v : Nat) (source : Source)
  | pushBack (v : Nat) (byte : Byte)
  | resize (v : Nat) (n : SizeT)
  | clean (v : Nat)
  | moveConstruct (v u : Nat)
  | moveAssign (v u : Nat)

inductive Out where
  | done
  | flag (ok : Bool)
  -- `operator bool` of what has been constructed
  | valid (b : Bool)
  deriving DecidableEq

end Buffer

/--
A variable without a buffer is `none`, one whose buffer is null is `some none`.
-/
structure ArrayWorld where
  arrays : Nat → Option (List Byte)
  windows : Nat → Option (Option Window)

namespace ArrayWorld

def init (arrays : Nat → Option (List Byte)) : ArrayWorld := ⟨arrays, fun _ => none⟩

def place (a : ArrayWorld) (v : Nat) (y : Option Window) : ArrayWorld :=
  { a with windows := Function.update a.windows v (some y) }

def allocate (a : ArrayWorld) (v array : Nat) (bytes : List Byte) : ArrayWorld where
  arrays := Function.update a.arrays array (some bytes)
  windows := Function.update a.windows v (some (some ⟨array, 0, bytes.length, 0, Nat.zero_le _⟩))

def put (a : ArrayWorld) (v : Nat) (x : Window) (start : Nat) (bs : List Byte)
    (h : start + bs.length ≤ x.capacity) : ArrayWorld where
  arrays :=
    Function.update a.arrays x.array ((a.arrays x.array).map (·.splice (x.offset + start) bs))
  windows := Function.update a.windows v (some (some (x.withUsed (start + bs.length) h)))

def Puts (a : ArrayWorld) (v : Nat) (start : Window → Nat) (bs : List Byte) (o : Buffer.Out)
    (a' : ArrayWorld) : Prop :=
  (∃ x h, a.windows v = some (some x) ∧ o = .flag true ∧ a' = a.put v x (start x) bs h)
    ∨
  ((a.windows v = some none
      ∨ ∃ x, a.windows v = some (some x) ∧ x.capacity < start x + bs.length)
    ∧ o = .flag false ∧ a' = a)

-- a null buffer has room for nothing
def Resizes (a : ArrayWorld) (v n : Nat) (o : Buffer.Out) (a' : ArrayWorld) : Prop :=
  (∃ x h, a.windows v = some (some x) ∧ o = .flag true ∧ a' = a.place v (some (x.withUsed n h)))
    ∨
  (a.windows v = some none ∧ o = .flag (n == 0) ∧ a' = a)
    ∨
  (∃ x, a.windows v = some (some x) ∧ x.capacity < n ∧ o = .flag false ∧ a' = a)

def Allocated (n : SizeT) (garbage : Option (Nat → Byte)) : Prop :=
  garbage.isSome = true ∧ 0 < n.toNat ∧ n.toNat ≤ ptrdiffMax

-- a null span and an empty one give a null buffer
def external (span : ByteSpan) : Option Window :=
  match span.data with
  | none => none
  | some p =>
    if span.size.toNat = 0 then
      none
    else
      some ⟨p.block, p.offset, span.size.toNat, 0, Nat.zero_le _⟩

def Step (a : ArrayWorld) (op : Buffer.Op) (o : Buffer.Out) (a' : ArrayWorld) : Prop :=
  match op with
  | .ofCapacity v n garbage =>
    a.windows v = none
      ∧ ((Allocated n garbage ∧ o = .valid true ∧ ∃ array bytes, a.arrays array = none
            ∧ bytes.length = n.toNat ∧ a' = a.allocate v array bytes)
          ∨
        (¬ Allocated n garbage ∧ o = .valid false ∧ a' = a.place v none))
  | .ofExternal v span =>
    a.windows v = none ∧ o = .valid (external span).isSome ∧ a' = a.place v (external span)
  | .destroy v =>
    (∃ y, a.windows v = some y) ∧ o = .done
      ∧ a' = { a with windows := Function.update a.windows v none }
  | .assign v source => a.Puts v (fun _ => 0) source.bytes o a'
  | .append v source => a.Puts v (·.used) source.bytes o a'
  | .pushBack v byte => a.Puts v (·.used) [byte] o a'
  | .resize v n => a.Resizes v n.toNat o a'
  | .clean v =>
    ∃ y, a.windows v = some y ∧ o = .done
      ∧ a' = a.place v (y.map (·.withUsed 0 (Nat.zero_le _)))
  | .moveConstruct v u =>
    ∃ y, a.windows v = none ∧ a.windows u = some y ∧ o = .done
      ∧ a' = (a.place u none).place v y
  | .moveAssign v u =>
    ∃ y, (∃ z, a.windows v = some z) ∧ a.windows u = some y ∧ o = .done
      ∧ a' = if v = u then a else (a.place u none).place v y

end ArrayWorld

end Sfap
