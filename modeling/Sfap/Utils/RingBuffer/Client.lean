import Sfap.Lib.Transition
import Sfap.Utils.RingBuffer.Lemmas

/-!
This module contains one ring buffer together with its two users. Each user closes what it has
prepared before it starts another operation, the two of them take turns in any order.
-/

namespace Sfap

namespace RingBuffer

inductive Op where
  | put (c : Byte)
  | prepareWrite (n : SizeT)
  | writeView (i : Nat) (c : Byte)
  | commitWrite (k : SizeT)
  | pop
  | prepareRead (n : SizeT)
  | readView (i : Nat)
  | commitRead (k : SizeT)
  | clean

inductive Out where
  | done
  | flag (b : Bool)
  | byte (c : Option Byte)
  | count (n : Nat)
  deriving DecidableEq

structure Client where
  rb : RingBuffer
  writing : Option View
  reading : Option View

namespace Client

def fresh (rb : RingBuffer) : Client := ⟨rb, none, none⟩

def step (s : Client) (op : Op) : Option (Client × Out) :=
  match op with
  | .put c =>
    match s.writing with
    | none =>
      let (ok, rb) := s.rb.put c
      some ({ s with rb := rb }, .flag ok)
    | some _ => none
  | .prepareWrite n =>
    match s.writing with
    | none =>
      let (view, rb) := s.rb.prepareWrite n
      some ({ s with rb := rb, writing := some view }, .count view.size.toNat)
    | some _ => none
  | .writeView i c =>
    match s.writing with
    | none => none
    | some view =>
      if h : i < view.slots.length then
        some ({ s with rb := s.rb.storeByte view.slots[i] c }, .done)
      else
        none
  | .commitWrite k =>
    match s.writing with
    | none => none
    | some view =>
      -- the documented precondition
      if k ≤ view.size then
        let (can, rb) := s.rb.commitWrite k
        some ({ s with rb := rb, writing := none }, .count can.toNat)
      else
        none
  | .pop =>
    match s.reading with
    | none =>
      let (c, rb) := s.rb.pop
      some ({ s with rb := rb }, .byte c)
    | some _ => none
  | .prepareRead n =>
    match s.reading with
    | none =>
      let (view, rb) := s.rb.prepareRead n
      some ({ s with rb := rb, reading := some view }, .count view.size.toNat)
    | some _ => none
  | .readView i =>
    match s.reading with
    | none => none
    | some view =>
      if h : i < view.slots.length then
        some (s, .byte (some (s.rb.loadByte view.slots[i])))
      else
        none
  | .commitRead k =>
    match s.reading with
    | none => none
    | some view =>
      if k ≤ view.size then
        let (can, rb) := s.rb.commitRead k
        some ({ s with rb := rb, reading := none }, .count can.toNat)
      else
        none
  | .clean =>
    match s.writing, s.reading with
    | none, none => some ({ s with rb := s.rb.clean }, .done)
    | _, _ => none

section Due

variable {s s' : Client} {o : Out}

theorem of_step_put {c : Byte} (h : s.step (.put c) = some (s', o))
    : s.writing = none ∧ s' = { s with rb := (s.rb.put c).2 } ∧ o = .flag (s.rb.put c).1 := by
  unfold step at h
  dsimp only at h
  split at h
  . next hw =>
    simp only [Option.some.injEq, Prod.mk.injEq] at h
    exact ⟨hw, h.1.symm, h.2.symm⟩
  . simp at h

theorem of_step_prepareWrite {n : SizeT} (h : s.step (.prepareWrite n) = some (s', o))
    : s.writing = none
        ∧ s' = { s with rb := (s.rb.prepareWrite n).2, writing := some (s.rb.prepareWrite n).1 }
        ∧ o = .count (s.rb.prepareWrite n).1.size.toNat := by
  unfold step at h
  dsimp only at h
  split at h
  . next hw =>
    simp only [Option.some.injEq, Prod.mk.injEq] at h
    exact ⟨hw, h.1.symm, h.2.symm⟩
  . simp at h

theorem of_step_writeView {i : Nat} {c : Byte} (h : s.step (.writeView i c) = some (s', o))
    : ∃ view, s.writing = some view ∧ ∃ hi : i < view.slots.length,
        s' = { s with rb := s.rb.storeByte view.slots[i] c } ∧ o = .done := by
  unfold step at h
  dsimp only at h
  split at h
  . simp at h
  . next view hw =>
    split at h
    . next hi =>
      simp only [Option.some.injEq, Prod.mk.injEq] at h
      exact ⟨view, hw, hi, h.1.symm, h.2.symm⟩
    . simp at h

theorem of_step_commitWrite {k : SizeT} (h : s.step (.commitWrite k) = some (s', o))
    : ∃ view, s.writing = some view ∧ k.toNat ≤ view.size.toNat
        ∧ s' = { s with rb := (s.rb.commitWrite k).2, writing := none }
        ∧ o = .count (s.rb.commitWrite k).1.toNat := by
  unfold step at h
  dsimp only at h
  split at h
  . simp at h
  . next view hw =>
    split at h
    . next hk =>
      simp only [Option.some.injEq, Prod.mk.injEq] at h
      exact ⟨view, hw, UInt64.le_iff_toNat_le.mp hk, h.1.symm, h.2.symm⟩
    . simp at h

theorem of_step_pop (h : s.step .pop = some (s', o))
    : s.reading = none ∧ s' = { s with rb := s.rb.pop.2 } ∧ o = .byte s.rb.pop.1 := by
  unfold step at h
  dsimp only at h
  split at h
  . next hr =>
    simp only [Option.some.injEq, Prod.mk.injEq] at h
    exact ⟨hr, h.1.symm, h.2.symm⟩
  . simp at h

theorem of_step_prepareRead {n : SizeT} (h : s.step (.prepareRead n) = some (s', o))
    : s.reading = none
        ∧ s' = { s with rb := (s.rb.prepareRead n).2, reading := some (s.rb.prepareRead n).1 }
        ∧ o = .count (s.rb.prepareRead n).1.size.toNat := by
  unfold step at h
  dsimp only at h
  split at h
  . next hr =>
    simp only [Option.some.injEq, Prod.mk.injEq] at h
    exact ⟨hr, h.1.symm, h.2.symm⟩
  . simp at h

theorem of_step_readView {i : Nat} (h : s.step (.readView i) = some (s', o))
    : ∃ view, s.reading = some view ∧ ∃ hi : i < view.slots.length,
        s' = s ∧ o = .byte (some (s.rb.loadByte view.slots[i])) := by
  unfold step at h
  dsimp only at h
  split at h
  . simp at h
  . next view hr =>
    split at h
    . next hi =>
      simp only [Option.some.injEq, Prod.mk.injEq] at h
      exact ⟨view, hr, hi, h.1.symm, h.2.symm⟩
    . simp at h

theorem of_step_commitRead {k : SizeT} (h : s.step (.commitRead k) = some (s', o))
    : ∃ view, s.reading = some view ∧ k.toNat ≤ view.size.toNat
        ∧ s' = { s with rb := (s.rb.commitRead k).2, reading := none }
        ∧ o = .count (s.rb.commitRead k).1.toNat := by
  unfold step at h
  dsimp only at h
  split at h
  . simp at h
  . next view hr =>
    split at h
    . next hk =>
      simp only [Option.some.injEq, Prod.mk.injEq] at h
      exact ⟨view, hr, UInt64.le_iff_toNat_le.mp hk, h.1.symm, h.2.symm⟩
    . simp at h

theorem of_step_clean (h : s.step .clean = some (s', o))
    : s.writing = none ∧ s.reading = none ∧ s' = { s with rb := s.rb.clean } ∧ o = .done := by
  unfold step at h
  dsimp only at h
  split at h
  . next hw hr =>
    simp only [Option.some.injEq, Prod.mk.injEq] at h
    exact ⟨hw, hr, h.1.symm, h.2.symm⟩
  . simp at h

end Due

/--
What holds between any two operations: outstanding views lie next to `head_` and `tail_`, and the
pending counters still cover them.
-/
structure Inv (s : Client) : Prop where
  size_le : s.rb.size.toNat ≤ s.rb.capacity.toNat
  writing_slots : ∀ view, s.writing = some view →
    view.slots = Circular.slots s.rb.capacity.toNat s.rb.head.toNat view.size.toNat
  writing_le : ∀ view, s.writing = some view →
    s.rb.size.toNat + view.size.toNat ≤ s.rb.capacity.toNat
      ∧ view.size.toNat ≤ s.rb.pendingW.toNat
  reading_slots : ∀ view, s.reading = some view →
    view.slots = Circular.slots s.rb.capacity.toNat s.rb.tail.toNat view.size.toNat
  reading_le : ∀ view, s.reading = some view →
    view.size.toNat ≤ s.rb.size.toNat ∧ view.size.toNat ≤ s.rb.pendingR.toNat

end Client

end RingBuffer

end Sfap
