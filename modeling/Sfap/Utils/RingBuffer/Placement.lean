import Sfap.Lib.Ownership
import Sfap.Lib.Transition
import Sfap.Utils.RingBuffer.Placed

/-!
This module contains any number of ring buffers on one heap, which refine as many ring buffers by value, and
the accounts of their storage.
-/

namespace Sfap

namespace RingBuffer

open Ownership (Custody)
open Memory (Apart)

namespace Placed

-- the block that `delete[]` will be called for
def storage (p : Placed) : Option Nat :=
  if p.isOwner then p.data.map Ptr.block else none

inductive Op where
  | ofSize (v : Nat) (n : SizeT) (garbage : Option (Nat → Byte))
  | ofExternal (v : Nat) (external : ByteSpan)
  | destroy (v : Nat)
  | moveConstruct (v u : Nat)
  | moveAssign (v u : Nat)
  | call (v : Nat) (call : Call)

structure World where
  heap : Heap
  rings : Nat → Option Placed

def Op.isOfExternal : Op → Bool
  | .ofExternal .. => true
  | _ => false

namespace World

def init (heap : Heap) : World := ⟨heap, fun _ => none⟩

def set (w : World) (heap : Heap) (v : Nat) (r : Option Placed) : World where
  heap := heap
  rings := Function.update w.rings v r

def construct (w : World) (v : Nat) (result : Placed × Heap) : Option (World × Out) :=
  match w.rings v with
  | some _ => none
  | none => some (w.set result.2 v (some result.1), .valid result.1.isValid)

def step (w : World) (op : Op) : Option (World × Out) :=
  match op with
  | .ofSize v n garbage => w.construct v (ofSize w.heap n garbage)
  | .ofExternal v external => w.construct v (ofExternal external, w.heap)
  | .destroy v =>
    match w.rings v with
    | none => none
    | some p => some (w.set (p.destroy w.heap) v none, .done)
  | .moveConstruct v u =>
    match w.rings v, w.rings u with
    | none, some other =>
      let (p, rest) := other.moveConstruct
      some ((w.set w.heap u (some rest)).set w.heap v (some p), .done)
    | _, _ => none
  | .moveAssign v u =>
    match w.rings v, w.rings u with
    | some p, some other =>
      if v = u then
        some (w, .done)
      else
        let (p, rest, heap) := p.moveAssign w.heap other
        some ((w.set w.heap u (some rest)).set heap v (some p), .done)
    | _, _ => none
  | .call v call =>
    match w.rings v with
    | none => none
    | some p =>
      if call.Inside p then
        let (o, p, heap) := call.inMemory w.heap p
        some (w.set heap v (some p), o)
      else
        none

-- a ring is put over memory that its callers have had from the start and no other ring has been put over
def Careful (heap₀ : Heap) (w : World) : Op → Prop
  | .ofExternal _ external =>
    match external.data with
    | none => external.size = 0
    | some q => q.block < heap₀.next ∧ w.heap.Backs q external.size.toNat
        ∧ ∀ u p q', w.rings u = some p → p.isOwner = false → p.data = some q' →
          Apart q external.size.toNat q' p.capacity.toNat
  | _ => True

theorem careful_of_not {heap₀ : Heap} {w : World} {op : Op} (h : op.isOfExternal = false)
    : Careful heap₀ w op := by
  cases op with
  | ofExternal v external => simp [Op.isOfExternal] at h
  | _ => trivial

end World

end Placed

abbrev Values := Nat → Option RingBuffer

namespace Values

def Step (x : Values) (op : Placed.Op) (o : Placed.Out) (x' : Values) : Prop :=
  match op with
  | .ofSize v n _ =>
    ∃ storage, x v = none ∧ o = .valid (ofSize n storage).isValid
      ∧ x' = Function.update x v (some (ofSize n storage))
  | .ofExternal v external =>
    ∃ bytes, x v = none ∧ o = .valid (ofExternal external.size bytes).isValid
      ∧ x' = Function.update x v (some (ofExternal external.size bytes))
  | .destroy v => (∃ rb, x v = some rb) ∧ o = .done ∧ x' = Function.update x v none
  | .moveConstruct v u =>
    ∃ other, x v = none ∧ x u = some other ∧ o = .done
      ∧ x' = Function.update (Function.update x u (some other.moveConstruct.2)) v
          (some other.moveConstruct.1)
  | .moveAssign v u =>
    ∃ rb other, x v = some rb ∧ x u = some other ∧ o = .done
      ∧ x' = if v = u then x else
          Function.update (Function.update x u (some (rb.moveAssign other).2)) v (some (rb.moveAssign other).1)
  | .call v call =>
    ∃ rb, x v = some rb ∧ o = (call.byValue rb).1 ∧ x' = Function.update x v (some (call.byValue rb).2)

end Values

def Separate (p p' : Placed) : Prop :=
  ∀ q q', p.data = some q → p'.data = some q' →
    Apart q p.capacity.toNat q' p'.capacity.toNat
      ∧ (p.isOwner = true ∨ p'.isOwner = true → q.block ≠ q'.block)

def Mirrored (heap : Heap) : Option Placed → Option RingBuffer → Prop
  | some p, some rb => Mirrors heap p rb
  | none, none => True
  | _, _ => False

structure Laid (w : Placed.World) (x : Values) : Prop where
  mirrored : ∀ v, Mirrored w.heap (w.rings v) (x v)
  separate : ∀ v u p p', w.rings v = some p → w.rings u = some p' → v ≠ u → Separate p p'
  base : ∀ v p q, w.rings v = some p → p.isOwner = true → p.data = some q → q.offset = 0

section Laid

variable {heap heap' : Heap} {p p' : Placed} {rb : RingBuffer} {w : Placed.World} {x : Values} {v u : Nat}

theorem Separate.symm (h : Separate p p') : Separate p' p := by
  intro q' q hq' hq
  rcases h q q' hq hq' with ⟨hapart, hblock⟩
  refine ⟨hapart.symm, ?_⟩
  intro howner
  exact (hblock howner.symm).symm

theorem separate_of_null (h : p.data = none) (p' : Placed) : Separate p p' := by
  intro q _ hq
  rw [h] at hq
  simp at hq

theorem Mirrors.congr (h : Mirrors heap p rb)
    (heq : ∀ q, p.data = some q → heap'.blocks q.block = heap.blocks q.block)
    : Mirrors heap' p rb := by
  refine { h with data := ?_, backs := ?_ }
  . rw [h.data]
    cases hq : p.data with
    | none => rfl
    | some q =>
      rw [Option.map_some, Option.map_some, Memory.load_congr (heq q hq)]
  . intro q hq
    apply (h.backs q hq).congr
    apply heq q hq

theorem Mirrors.store (h : Mirrors heap p rb) (h' : ∀ q, p'.data = some q → heap.Backs q p'.capacity.toNat)
    (hseparate : Separate p' p) {q : Ptr} (hq : p'.data = some q) {i : Nat} (hi : i < p'.capacity.toNat)
    (c : Byte)
    : Mirrors (heap.store (q.add i) [c]) p rb := by
  have hbacks := h' q hq
  refine { h with data := ?_, backs := ?_ }
  . rw [h.data]
    cases hp : p.data with
    | none => rfl
    | some q' =>
      rw [Option.map_some, Option.map_some, Memory.load_store_apart hbacks hi (hseparate q q' hq hp).1]
  . intro q' hp
    apply hbacks.store_of_backs hi (h.backs q' hp)

theorem Laid.of_some (h : Laid w x) (hv : w.rings v = some p) : ∃ rb, x v = some rb ∧ Mirrors w.heap p rb := by
  have hmirrored := h.mirrored v
  rw [hv] at hmirrored
  cases hx : x v with
  | none =>
    rw [hx] at hmirrored
    exact hmirrored.elim
  | some rb =>
    rw [hx] at hmirrored
    exact ⟨rb, rfl, hmirrored⟩

theorem Laid.of_none (h : Laid w x) (hv : w.rings v = none) : x v = none := by
  have hmirrored := h.mirrored v
  rw [hv] at hmirrored
  cases hx : x v with
  | none => rfl
  | some rb =>
    rw [hx] at hmirrored
    exact hmirrored.elim

theorem Laid.place (h : Laid w x) {r : Option Placed} {y : Option RingBuffer} (hr : Mirrored heap' r y)
    (hothers : ∀ u p rb, u ≠ v → w.rings u = some p → Mirrors w.heap p rb → Mirrors heap' p rb)
    (hseparate : ∀ p, r = some p → ∀ u p', u ≠ v → w.rings u = some p' → Separate p p')
    (hbase : ∀ p q, r = some p → p.isOwner = true → p.data = some q → q.offset = 0)
    : Laid (w.set heap' v r) (Function.update x v y) := by
  unfold Placed.World.set
  constructor
  . intro u
    dsimp only
    by_cases hu : u = v
    . rw [hu, Function.update_self, Function.update_self]
      exact hr
    . rw [Function.update_of_ne hu, Function.update_of_ne hu]
      cases hp : w.rings u with
      | none =>
        rw [h.of_none hp]
        trivial
      | some p =>
        rcases h.of_some hp with ⟨rb, hx, hmirrors⟩
        rw [hx]
        apply hothers u p rb hu hp hmirrors
  . intro u₁ u₂ p₁ p₂ h₁ h₂ hne
    dsimp only at h₁ h₂
    by_cases hu₁ : u₁ = v
    . have hu₂ : u₂ ≠ v := fun heq => hne (hu₁.trans heq.symm)
      rw [hu₁, Function.update_self] at h₁
      rw [Function.update_of_ne hu₂] at h₂
      apply hseparate p₁ h₁ u₂ p₂ hu₂ h₂
    . rw [Function.update_of_ne hu₁] at h₁
      by_cases hu₂ : u₂ = v
      . rw [hu₂, Function.update_self] at h₂
        exact (hseparate p₂ h₂ u₁ p₁ hu₁ h₁).symm
      . rw [Function.update_of_ne hu₂] at h₂
        apply h.separate u₁ u₂ p₁ p₂ h₁ h₂ hne
  . intro u p q hp
    dsimp only at hp
    by_cases hu : u = v
    . rw [hu, Function.update_self] at hp
      apply hbase p q hp
    . rw [Function.update_of_ne hu] at hp
      apply h.base u p q hp

theorem Laid.keep (h : Laid w x) {r : Option Placed} {y : Option RingBuffer} (hr : Mirrored w.heap r y)
    (hseparate : ∀ p, r = some p → ∀ u p', u ≠ v → w.rings u = some p' → Separate p p')
    (hbase : ∀ p q, r = some p → p.isOwner = true → p.data = some q → q.offset = 0)
    : Laid (w.set w.heap v r) (Function.update x v y) := by
  apply h.place hr _ hseparate hbase
  intro u p rb _ _ hmirrors
  exact hmirrors

end Laid

section Steps

variable {heap₀ heap heap' : Heap} {p p' other : Placed} {rb : RingBuffer} {w w' : Placed.World} {x : Values} {v u : Nat}
  {o : Placed.Out}

structure Refines (heap₀ : Heap) (w : Placed.World) (x : Values) : Prop extends Laid w x where
  custody : Custody heap₀ w.heap ((·.bind Placed.storage) ∘ w.rings)

theorem Refines.init (heap : Heap) : Refines heap (.init heap) fun _ => none := by
  constructor
  . constructor
    . intro v
      trivial
    . intro v u p p' hp
      simp [Placed.World.init] at hp
    . intro v p q hp
      simp [Placed.World.init] at hp
  . apply Custody.init

theorem Laid.blocks_destroy (h : Laid w x) (hv : w.rings v = some p) (hne : u ≠ v) (hu : w.rings u = some p')
    : ∀ q, p'.data = some q → (p.destroy w.heap).blocks q.block = w.heap.blocks q.block := by
  intro q' hq'
  unfold Placed.destroy
  split
  . next howner =>
    unfold Heap.deleteBytes
    split
    . rfl
    . next q hq =>
      apply w.heap.free_blocks
      exact ((h.separate v u p p' hv hu hne.symm q q' hq hq').2 (.inl howner)).symm
  . rfl

theorem allocated_destroy (heap : Heap) (p : Placed) (k : Nat)
    : (p.destroy heap).Allocated k ↔ heap.Allocated k ∧ p.storage ≠ some k := by
  unfold Placed.destroy Placed.storage
  split
  . unfold Heap.deleteBytes
    split
    . next hq => simp [hq]
    . next q hq =>
      rw [hq, heap.allocated_free]
      simp [eq_comm]
  . simp

theorem next_destroy (heap : Heap) (p : Placed) : (p.destroy heap).next = heap.next := by
  unfold Placed.destroy Heap.deleteBytes
  split
  . split
    . rfl
    . rfl
  . rfl

theorem destroy_refines (h : Refines heap₀ w x) (hv : w.rings v = some p)
    : Refines heap₀ (w.set (p.destroy w.heap) v none) (Function.update x v none) := by
  constructor
  . apply h.toLaid.place
    . trivial
    . intro u p' rb hne hu hmirrors
      apply hmirrors.congr
      apply h.blocks_destroy hv hne hu
    . simp
    . simp
  . unfold Placed.World.set
    dsimp only
    rw [Function.comp_update]
    apply h.custody.release
    . intro k
      rw [allocated_destroy, Function.comp_apply, hv]
      rfl
    . apply next_destroy

theorem mirrors_movedFrom (heap : Heap) : Mirrors heap .movedFrom movedFrom := by
  constructor <;> first | rfl | simp [Placed.movedFrom]

theorem Laid.moved (h : Laid w x) (u : Nat)
    : Laid (w.set w.heap u (some .movedFrom)) (Function.update x u (some movedFrom)) := by
  apply h.keep
  . exact mirrors_movedFrom w.heap
  . intro p hp u' p' _ _
    cases hp
    exact separate_of_null rfl p'
  . intro p q hp howner
    cases hp
    simp [Placed.movedFrom] at howner

theorem Laid.separate_of_moved (h : Laid w x) (hu : w.rings u = some other) {i : Nat}
    (hi : (w.set w.heap u (some .movedFrom)).rings i = some p)
    : Separate other p := by
  unfold Placed.World.set at hi
  dsimp only at hi
  by_cases heq : i = u
  . rw [heq, Function.update_self] at hi
    cases hi
    exact (separate_of_null rfl other).symm
  . rw [Function.update_of_ne heq] at hi
    apply h.separate u i other p hu hi (Ne.symm heq)

theorem moveConstruct_refines (h : Refines heap₀ w x) (hv : w.rings v = none) (hu : w.rings u = some other)
    (hx : x u = some rb)
    : Refines heap₀ ((w.set w.heap u (some other.moveConstruct.2)).set w.heap v (some other.moveConstruct.1))
        (Function.update (Function.update x u (some rb.moveConstruct.2)) v (some rb.moveConstruct.1)) := by
  have hmirrors : Mirrors w.heap other rb := by
    rcases h.of_some hu with ⟨rb', hx', hmirrors⟩
    rw [hx, Option.some.injEq] at hx'
    rw [hx']
    exact hmirrors
  constructor
  . apply (h.moved u).keep
    . exact hmirrors
    . intro p hp i p' _ hi
      cases hp
      apply h.separate_of_moved hu hi
    . intro p q hp
      cases hp
      apply h.base u other q hu
  . have hnone : ((·.bind Placed.storage) ∘ w.rings) v = none := by
      rw [Function.comp_apply, hv]
      rfl
    have hheld : ((·.bind Placed.storage) ∘ w.rings) u = other.storage := by
      rw [Function.comp_apply, hu]
      rfl
    have hmove : Custody heap₀ w.heap (Function.update (Function.update _ u none) v _) := h.custody.move hnone
    unfold Placed.World.set
    dsimp only
    rw [Function.comp_update, Function.comp_update]
    rw [hheld] at hmove
    exact hmove

theorem moveAssign_refines (h : Refines heap₀ w x) (hv : w.rings v = some p) (hu : w.rings u = some other)
    (hne : v ≠ u) (hx : x u = some rb) (rb' : RingBuffer)
    : Refines heap₀
        ((w.set w.heap u (some (p.moveAssign w.heap other).2.1)).set (p.moveAssign w.heap other).2.2 v
          (some (p.moveAssign w.heap other).1))
        (Function.update (Function.update x u (some (rb'.moveAssign rb).2)) v (some (rb'.moveAssign rb).1)) := by
  have hmirrors : Mirrors (p.destroy w.heap) other rb := by
    rcases h.of_some hu with ⟨rb'', hx', hmirrors⟩
    rw [hx, Option.some.injEq] at hx'
    rw [hx']
    apply hmirrors.congr
    apply h.blocks_destroy hv hne.symm hu
  constructor
  . apply (h.moved u).place
    . exact hmirrors
    . intro i p' rb'' hi hp' hmirrors'
      apply hmirrors'.congr
      unfold Placed.World.set at hp'
      dsimp only at hp'
      by_cases heq : i = u
      . rw [heq, Function.update_self] at hp'
        cases hp'
        intro q hq
        simp [Placed.movedFrom] at hq
      . rw [Function.update_of_ne heq] at hp'
        apply h.blocks_destroy hv hi hp'
    . intro p' hp' i p'' _ hi
      cases hp'
      apply h.separate_of_moved hu hi
    . intro p' q hp'
      cases hp'
      apply h.base u other q hu
  . have hheld : ((·.bind Placed.storage) ∘ w.rings) u = other.storage := by
      rw [Function.comp_apply, hu]
      rfl
    have hallocated (k : Nat) : (p.destroy w.heap).Allocated k
        ↔ w.heap.Allocated k ∧ ((·.bind Placed.storage) ∘ w.rings) v ≠ some k := by
      rw [allocated_destroy, Function.comp_apply, hv]
      rfl
    have hreplace : Custody heap₀ (p.destroy w.heap) (Function.update (Function.update _ u none) v _) :=
      h.custody.replace hallocated (next_destroy w.heap p) hne.symm
    unfold Placed.World.set
    dsimp only
    rw [Function.comp_update, Function.comp_update]
    rw [hheld] at hreplace
    exact hreplace

theorem mirrors_construct {data : Option Ptr} {n : SizeT} {isOwner : Bool}
    (hdata : rb.data = data.map fun q => heap.load q n.toNat)
    (hbacks : ∀ q, data = some q → heap.Backs q n.toNat)
    (hcapacity : rb.capacity = if rb.data.isSome then n else 0)
    (hmask : rb.mask = if rb.capacity != 0 then rb.capacity - 1 else 0) (hisOwner : rb.isOwner = isOwner)
    (hcounters : rb.head = 0 ∧ rb.tail = 0 ∧ rb.pendingW = 0 ∧ rb.pendingR = 0)
    : Mirrors heap (.construct data n isOwner) rb := by
  rw [hcapacity] at hmask
  rw [hdata, Option.isSome_map] at hcapacity hmask
  rcases hcounters with ⟨hhead, htail, hpendingW, hpendingR⟩
  constructor
  . rw [hdata]
    cases data with
    | none => rfl
    | some q => rfl
  . intro q hq
    cases hq
    exact hbacks q rfl
  . exact hcapacity
  . exact hisOwner
  . exact hmask
  . exact hhead
  . exact htail
  . exact hpendingW
  . exact hpendingR

theorem ofSize_cases (heap : Heap) (n : SizeT) (garbage : Option (Nat → Byte))
    : (∃ bytes : List Byte, bytes.length = n.toNat ∧ (n != 0 && Word.hasSingleBit n) = true
          ∧ Placed.ofSize heap n garbage = (.construct (some ⟨heap.next, 0⟩) n true, (heap.alloc bytes).2))
        ∨
      Placed.ofSize heap n garbage = (.construct none n false, heap) := by
  unfold Placed.ofSize
  by_cases hbit : (n != 0 && Word.hasSingleBit n) = true
  . rw [if_pos hbit]
    unfold Heap.newBytes
    cases garbage with
    | none => exact .inr rfl
    | some g =>
      dsimp only
      by_cases hmax : n.toNat ≤ ptrdiffMax
      . left
        rw [if_pos hmax]
        refine ⟨(List.range n.toNat).map g, ?_, hbit, rfl⟩
        rw [List.length_map, List.length_range]
      . rw [if_neg hmax]
        exact .inr rfl
  . rw [if_neg hbit]
    exact .inr rfl

theorem Refines.null (h : Refines heap₀ w x) (hv : w.rings v = none) {n : SizeT} {isOwner : Bool}
    (hmirrors : Mirrors w.heap (.construct none n isOwner) rb)
    : Refines heap₀ (w.set w.heap v (some (.construct none n isOwner))) (Function.update x v (some rb)) := by
  constructor
  . apply h.keep
    . exact hmirrors
    . intro p hp u' p' _ _
      cases hp
      exact separate_of_null rfl p'
    . intro p q hp _ hq
      cases hp
      simp [Placed.construct] at hq
  . unfold Placed.World.set
    dsimp only
    rw [Function.comp_update, Function.update_eq_self_iff.mpr]
    . exact h.custody
    . rw [Function.comp_apply, hv]
      unfold Placed.storage Placed.construct
      cases isOwner with
      | true => rfl
      | false => rfl

theorem ofSize_refines (h : Refines heap₀ w x) (hv : w.rings v = none) (n : SizeT)
    (garbage : Option (Nat → Byte))
    : ∃ storage, (Placed.ofSize w.heap n garbage).1.isValid = (ofSize n storage).isValid
        ∧ Refines heap₀ (w.set (Placed.ofSize w.heap n garbage).2 v (some (Placed.ofSize w.heap n garbage).1))
            (Function.update x v (some (ofSize n storage))) := by
  rcases ofSize_cases w.heap n garbage with ⟨bytes, hlength, hbit, heq⟩ | heq
  . let vec : Vector Byte n.toNat := ⟨bytes.toArray, by simpa using hlength⟩
    have hbacks : (w.heap.alloc bytes).2.Backs ⟨w.heap.next, 0⟩ n.toNat := by
      rw [← hlength]
      apply w.heap.alloc_backs
    have hload : (w.heap.alloc bytes).2.load ⟨w.heap.next, 0⟩ n.toNat = bytes := by
      rw [← hlength]
      apply w.heap.load_alloc
    have hmirrors : Mirrors (w.heap.alloc bytes).2 (.construct (some ⟨w.heap.next, 0⟩) n true)
        (ofSize n (some vec)) := by
      apply mirrors_construct
      . simp [ofSize, hbit, hload, vec]
      . intro q hq
        cases hq
        exact hbacks
      . simp [ofSize]
      . rfl
      . simp [ofSize, hbit]
      . exact ⟨rfl, rfl, rfl, rfl⟩
    refine ⟨some vec, ?_⟩
    rw [heq]
    dsimp only
    refine ⟨hmirrors.isValid.symm, ?_⟩
    constructor
    . apply h.toLaid.place
      . exact hmirrors
      . intro u p rb _ hp hmirrors'
        apply hmirrors'.congr
        intro q hq
        apply w.heap.alloc_blocks
        exact (hmirrors'.backs q hq).block_lt
      . intro p hp u p' _ hp' q q' hq hq'
        cases hp
        cases hq
        rcases h.of_some hp' with ⟨rb, _, hmirrors'⟩
        have hlt := (hmirrors'.backs q' hq').block_lt
        have hne : w.heap.next ≠ q'.block := by omega
        exact ⟨.inl hne, fun _ => hne⟩
      . intro p q hp _ hq
        cases hp
        cases hq
        rfl
    . unfold Placed.World.set
      dsimp only
      rw [Function.comp_update]
      apply h.custody.alloc
      rw [Function.comp_apply, hv]
      rfl
  . have hmirrors : Mirrors w.heap (.construct none n false) (ofSize n none) := by
      apply mirrors_construct
      . simp [ofSize]
      . simp
      . simp [ofSize]
      . rfl
      . simp [ofSize]
      . exact ⟨rfl, rfl, rfl, rfl⟩
    refine ⟨none, ?_⟩
    rw [heq]
    exact ⟨hmirrors.isValid.symm, h.null hv hmirrors⟩

theorem ofExternal_refines (h : Refines heap₀ w x) (hv : w.rings v = none) {external : ByteSpan}
    (hcareful : Placed.World.Careful heap₀ w (.ofExternal v external))
    : ∃ bytes, (Placed.ofExternal external).isValid = (ofExternal external.size bytes).isValid
        ∧ Refines heap₀ (w.set w.heap v (some (Placed.ofExternal external)))
            (Function.update x v (some (ofExternal external.size bytes))) := by
  unfold Placed.World.Careful at hcareful
  dsimp only at hcareful
  by_cases hbit : (external.size == 0 || !Word.hasSingleBit external.size) = true
  . have hmirrors : Mirrors w.heap (.construct none external.size false)
        (ofExternal external.size (.replicate _ 0)) := by
      apply mirrors_construct
      . simp only [ofExternal, hbit, ↓reduceIte, Option.map_none]
      . simp
      . simp [ofExternal]
      . rfl
      . rfl
      . exact ⟨rfl, rfl, rfl, rfl⟩
    have heq : Placed.ofExternal external = .construct none external.size false := by
      unfold Placed.ofExternal
      rw [if_pos hbit]
    rw [heq]
    exact ⟨_, hmirrors.isValid.symm, h.null hv hmirrors⟩
  . have heq : Placed.ofExternal external = .construct external.data external.size false := by
      unfold Placed.ofExternal
      rw [if_neg hbit]
    cases hdata : external.data with
    | none =>
      rw [hdata] at hcareful
      simp [hcareful] at hbit
    | some q =>
      rw [hdata] at hcareful
      rcases hcareful with ⟨hlt, hbacks, hapart⟩
      let vec : Vector Byte external.size.toNat :=
        ⟨(w.heap.load q external.size.toNat).toArray, by simpa using hbacks.length_load⟩
      have hmirrors : Mirrors w.heap (.construct (some q) external.size false)
          (ofExternal external.size vec) := by
        apply mirrors_construct
        . simp only [ofExternal, hbit, vec]
          rfl
        . intro q' hq'
          cases hq'
          exact hbacks
        . simp [ofExternal]
        . rfl
        . rfl
        . exact ⟨rfl, rfl, rfl, rfl⟩
      refine ⟨vec, ?_⟩
      rw [heq, hdata]
      refine ⟨hmirrors.isValid.symm, ?_⟩
      constructor
      . apply h.keep
        . exact hmirrors
        . intro p hp u p' _ hp' q₁ q' hq₁ hq'
          cases hp
          cases hq₁
          cases howner : p'.isOwner with
          | false =>
            refine ⟨hapart u p' q' hp' howner hq', ?_⟩
            simp [Placed.construct]
          | true =>
            have hheld : ((·.bind Placed.storage) ∘ w.rings) u = some q'.block := by
              rw [Function.comp_apply, hp']
              simp [Placed.storage, howner, hq']
            have hge := (h.custody.exclusive.held u q'.block hheld).1
            have hne : q.block ≠ q'.block := by omega
            exact ⟨.inl hne, fun _ => hne⟩
        . intro p q' hp howner
          cases hp
          simp [Placed.construct] at howner
      . unfold Placed.World.set
        dsimp only
        rw [Function.comp_update, Function.update_eq_self_iff.mpr]
        . exact h.custody
        . rw [Function.comp_apply, hv]
          rfl

theorem Stays.separate (h : Stays heap heap' p p') (hseparate : Separate p other) : Separate p' other := by
  unfold Separate
  rw [h.data, h.capacity, h.isOwner]
  exact hseparate

theorem Stays.storage (h : Stays heap heap' p p') : p'.storage = p.storage := by
  unfold Placed.storage
  rw [h.isOwner, h.data]

theorem Stays.mirrors (h : Stays heap heap' p p') (hp : Mirrors heap p rb) (hseparate : Separate p other)
    {rb' : RingBuffer} (hother : Mirrors heap other rb')
    : Mirrors heap' other rb' := by
  rcases h.heap with rfl | ⟨q, i, c, hq, hi, rfl⟩
  . exact hother
  . apply hother.store hp.backs hseparate hq hi

theorem Stays.allocated (h : Stays heap heap' p p')
    : (∀ k, heap'.Allocated k ↔ heap.Allocated k) ∧ heap'.next = heap.next := by
  rcases h.heap with rfl | ⟨q, i, c, _, _, rfl⟩
  . exact ⟨fun _ => Iff.rfl, rfl⟩
  . exact ⟨heap.allocated_store _ [c], rfl⟩

theorem call_refines (h : Refines heap₀ w x) (hv : w.rings v = some p) {call : Placed.Call}
    (hinside : call.Inside p)
    : ∃ rb, x v = some rb ∧ (call.inMemory w.heap p).1 = (call.byValue rb).1
        ∧ Refines heap₀ (w.set (call.inMemory w.heap p).2.2 v (some (call.inMemory w.heap p).2.1))
            (Function.update x v (some (call.byValue rb).2)) := by
  rcases h.of_some hv with ⟨rb, hx, hmirrors⟩
  have hstays := hmirrors.stays hinside
  rcases hmirrors.call hinside with ⟨hout, hnext⟩
  refine ⟨rb, hx, hout, ?_⟩
  constructor
  . apply h.toLaid.place
    . exact hnext
    . intro u p' rb' hne hu hmirrors'
      apply hstays.mirrors hmirrors _ hmirrors'
      apply h.separate v u p p' hv hu hne.symm
    . intro p' hp' u p'' hne hu
      cases hp'
      apply hstays.separate
      apply h.separate v u p p'' hv hu hne.symm
    . intro p' q hp' howner hq
      cases hp'
      rw [hstays.isOwner] at howner
      rw [hstays.data] at hq
      apply h.base v p q hv howner hq
  . unfold Placed.World.set
    dsimp only
    rw [Function.comp_update, Function.update_eq_self_iff.mpr]
    . apply h.custody.congr hstays.allocated.1 hstays.allocated.2
    . rw [Function.comp_apply, hv]
      exact hstays.storage

theorem Placed.World.construct_eq_some {result : Placed × Heap} (h : w.construct v result = some (w', o))
    : w.rings v = none ∧ w' = w.set result.2 v (some result.1) ∧ o = .valid result.1.isValid := by
  unfold Placed.World.construct at h
  split at h
  . simp at h
  . next hv =>
    cases h
    exact ⟨hv, rfl, rfl⟩

theorem step_refines (h : Refines heap₀ w x) {op : Placed.Op} (hcareful : Placed.World.Careful heap₀ w op)
    (hstep : w.step op = some (w', o))
    : ∃ x', Values.Step x op o x' ∧ Refines heap₀ w' x' := by
  cases op with
  | ofSize v n garbage =>
    rcases Placed.World.construct_eq_some hstep with ⟨hv, rfl, rfl⟩
    rcases ofSize_refines h hv n garbage with ⟨storage, hvalid, hrefines⟩
    exact ⟨_, ⟨storage, h.of_none hv, congrArg Placed.Out.valid hvalid, rfl⟩, hrefines⟩
  | ofExternal v external =>
    rcases Placed.World.construct_eq_some hstep with ⟨hv, rfl, rfl⟩
    rcases ofExternal_refines h hv hcareful with ⟨bytes, hvalid, hrefines⟩
    exact ⟨_, ⟨bytes, h.of_none hv, congrArg Placed.Out.valid hvalid, rfl⟩, hrefines⟩
  | destroy v =>
    unfold Placed.World.step at hstep
    dsimp only at hstep
    split at hstep
    . simp at hstep
    . next p hv =>
      cases hstep
      rcases h.of_some hv with ⟨rb, hx, _⟩
      exact ⟨_, ⟨⟨rb, hx⟩, rfl, rfl⟩, destroy_refines h hv⟩
  | moveConstruct v u =>
    unfold Placed.World.step at hstep
    dsimp only at hstep
    split at hstep
    . next other hv hu =>
      cases hstep
      rcases h.of_some hu with ⟨rb, hx, _⟩
      exact ⟨_, ⟨rb, h.of_none hv, hx, rfl, rfl⟩, moveConstruct_refines h hv hu hx⟩
    . simp at hstep
  | moveAssign v u =>
    unfold Placed.World.step at hstep
    dsimp only at hstep
    split at hstep
    . next p other hv hu =>
      rcases h.of_some hv with ⟨rb', hx', _⟩
      rcases h.of_some hu with ⟨rb, hx, _⟩
      split at hstep
      . next heq =>
        cases hstep
        exact ⟨x, ⟨rb', rb, hx', hx, rfl, (if_pos heq).symm⟩, h⟩
      . next hne =>
        cases hstep
        exact ⟨_, ⟨rb', rb, hx', hx, rfl, (if_neg hne).symm⟩, moveAssign_refines h hv hu hne hx rb'⟩
    . simp at hstep
  | call v call =>
    unfold Placed.World.step at hstep
    dsimp only at hstep
    split at hstep
    . simp at hstep
    . next p hv =>
      split at hstep
      . next hinside =>
        cases hstep
        rcases call_refines h hv hinside with ⟨rb, hx, hout, hrefines⟩
        exact ⟨_, ⟨rb, hx, hout, rfl⟩, hrefines⟩
      . simp at hstep

end Steps

open Transition

/--
Rings over storage of their own or of their callers, however they are moved, behave as those whose storage is
part of their value, and a view gives the addresses of its slots. A block that `new` has returned is deleted
once and as a whole, the callers' blocks never are, and nothing is left of rings that are all gone.
-/
theorem placed_refines (heap : Heap) {trace : List (Placed.Op × Placed.Out)} {w : Placed.World}
    (hrun : Run (restrict (Placed.World.Careful heap) (ofStep Placed.World.step)) (.init heap) trace w)
    : (∃ x, Run Values.Step (fun _ => none) trace x ∧ (∀ v, Mirrored w.heap (w.rings v) (x v))
          ∧ ∀ v p rb q n, w.rings v = some p → x v = some rb → p.data = some q →
            Placed.cells (p.prepareWrite n).1 = (rb.prepareWrite n).1.slots.map q.add
              ∧ Placed.cells (p.prepareRead n).1 = (rb.prepareRead n).1.slots.map q.add)
        ∧ (∀ k, heap.next ≤ k → (w.heap.Allocated k ↔ ∃ v, (w.rings v).bind Placed.storage = some k))
        ∧ (∀ v u k, (w.rings v).bind Placed.storage = some k → (w.rings u).bind Placed.storage = some k → v = u)
        ∧ (∀ v p q, w.rings v = some p → p.isOwner = true → p.data = some q → q.offset = 0)
        ∧ (∀ k < heap.next, w.heap.Allocated k ↔ heap.Allocated k)
        ∧ ((∀ v, w.rings v = none) → ∀ k, w.heap.Allocated k ↔ heap.Allocated k) := by
  rcases hrun.simulate (Refines.init heap) (by
    intro w₁ x₁ op o w₂ h hstep
    exact step_refines h hstep.1 hstep.2) with ⟨x, hvalues, h⟩
  refine ⟨⟨x, hvalues, h.mirrored, ?_⟩, ?_, h.custody.exclusive.unique, h.base, h.custody.callers, ?_⟩
  . intro v p rb q n hp hrb hq
    rcases h.of_some hp with ⟨rb', hx, hmirrors⟩
    cases hrb.symm.trans hx
    exact ⟨(hmirrors.prepareWrite n).1.cells q hq, (hmirrors.prepareRead n).1.cells q hq⟩
  . intro k hk
    exact h.custody.allocated_iff hk
  . intro hnone k
    apply h.custody.allocated_of_none
    intro v
    rw [Function.comp_apply, hnone]
    rfl

-- a reservation is made in one ring and committed in the one that it has been moved to
theorem placed_refines_of_moved
    : let heap : Heap := (Memory.empty.alloc [1, 2, 3, 4]).2
      ∃ trace w x, Run (restrict (Placed.World.Careful heap) (ofStep Placed.World.step)) (.init heap) trace w
        ∧ Run Values.Step (fun _ => none) trace x
        ∧ trace.getLast?.map Prod.snd = some (.byte (some 9)) ∧ (w.rings 0).bind (·.data) = none
        ∧ w.heap.Allocated 1 ∧ w.heap.Allocated 0 := by
  intro heap
  let external : ByteSpan := ⟨some ⟨0, 2⟩, 2⟩
  let w₁ : Placed.World := (Placed.World.init heap).set heap 1 (some (Placed.ofExternal external))
  let ops : List Placed.Op :=
    [.ofSize 0 2 (some fun _ => 7), .call 0 (.prepareWrite 2), .call 0 (.storeByte 0 9), .moveAssign 1 0,
      .call 1 (.commitWrite 1), .call 1 .pop]
  have hcareful : Placed.World.Careful heap (.init heap) (.ofExternal 1 external) := by
    refine ⟨by decide, by decide, ?_⟩
    intro u p q' hp
    simp [Placed.World.init] at hp
  have hfirst : Run (restrict (Placed.World.Careful heap) (ofStep Placed.World.step)) (.init heap) _ w₁ :=
    .snoc .nil ⟨hcareful, rfl⟩
  have hexec : ((exec (guarded (fun _ op => op.isOfExternal = false) Placed.World.step) w₁ ops).map fun r =>
      ((ops.zip r.2).getLast?.map Prod.snd, (r.1.rings 0).bind (·.data), (r.1.rings 1).bind Placed.storage))
        = some (some (.byte (some 9)), none, some 1) := by decide
  rcases Option.map_eq_some_iff.mp hexec with ⟨⟨w, outs⟩, hexec, heq⟩
  simp only [Prod.mk.injEq] at heq
  rcases heq with ⟨hlast, hmoved, hstorage⟩
  have hrest : Run (restrict (Placed.World.Careful heap) (ofStep Placed.World.step)) w₁ (ops.zip outs) w := by
    refine (run_restrict_of_exec hexec).mono ?_
    intro w op o w' hstep
    exact ⟨Placed.World.careful_of_not hstep.1, hstep.2⟩
  have hrun := hfirst.append hrest
  rcases placed_refines heap hrun with ⟨⟨x, hvalues, _⟩, howned, _, _, hcallers, _⟩
  refine ⟨_, w, x, hrun, hvalues, ?_, hmoved, ?_, ?_⟩
  . rcases Option.map_eq_some_iff.mp hlast with ⟨entry, hentry, hout⟩
    rw [List.getLast?_append, hentry]
    exact congrArg some hout
  . rw [howned 1 (by decide)]
    exact ⟨1, hstorage⟩
  . rw [hcallers 0 (by decide)]
    unfold Memory.Allocated
    decide

end RingBuffer

end Sfap
