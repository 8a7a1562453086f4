import Sfap.Lib.Ownership
import Sfap.Utils.Buffer.Simulation

/-!
This module contains the accounts of the storage of buffers: every block that `new` has returned is owned by
exactly one buffer until it is deleted, and what belongs to the callers is never deleted.
-/

namespace Sfap

namespace Buffer

open Ownership (Custody)

-- the block that `delete[]` will be called for
def storage (b : Buffer) : Option Nat :=
  if b.owner then b.data.map Ptr.block else none

structure Accounted (heap₀ heap : Heap) (data : Nat → Option Buffer) : Prop extends
    Custody heap₀ heap ((·.bind storage) ∘ data) where
  base : ∀ v b p, data v = some b → b.owner = true → b.data = some p → p.offset = 0

structure SameStorage (heap heap' : Heap) (b b' : Buffer) : Prop where
  data : b'.data = b.data
  owner : b'.owner = b.owner
  allocated : ∀ k, heap'.Allocated k ↔ heap.Allocated k
  next : heap'.next = heap.next
  elsewhere : ∀ k, (∀ p, b.data = some p → p.block ≠ k) → heap'.blocks k = heap.blocks k

section SameStorage

variable {heap heap₁ heap₂ : Heap} {b b₁ b₂ : Buffer}

theorem SameStorage.refl (heap : Heap) (b : Buffer) : SameStorage heap heap b b :=
  ⟨rfl, rfl, fun _ => Iff.rfl, rfl, fun _ _ => rfl⟩

theorem SameStorage.trans (h₁ : SameStorage heap heap₁ b b₁) (h₂ : SameStorage heap₁ heap₂ b₁ b₂)
    : SameStorage heap heap₂ b b₂ := by
  constructor
  . exact h₂.data.trans h₁.data
  . exact h₂.owner.trans h₁.owner
  . intro k
    exact (h₂.allocated k).trans (h₁.allocated k)
  . exact h₂.next.trans h₁.next
  . intro k hk
    rw [← h₁.elsewhere k hk]
    apply h₂.elsewhere k
    rw [h₁.data]
    exact hk

theorem sameStorage_store {p : Ptr} (hp : b.data = some p) (i : Nat) (bytes : List Byte)
    : SameStorage heap (heap.store (p.add i) bytes) b b := by
  refine ⟨rfl, rfl, heap.allocated_store _ bytes, rfl, ?_⟩
  intro k hk
  apply (heap.sameBut_store p i bytes).2
  exact (hk p hp).symm

theorem SameStorage.storage (h : SameStorage heap heap₁ b b₁) : b₁.storage = b.storage := by
  unfold Buffer.storage
  rw [h.owner, h.data]

theorem sameStorage_copyAt (heap : Heap) (b : Buffer) (i : SizeT) (bytes : List Byte)
    : SameStorage heap (b.copyAt heap i bytes) b b := by
  unfold copyAt
  split
  . apply SameStorage.refl
  . next p hp => apply sameStorage_store hp

theorem sameStorage_storeAt (heap : Heap) (b : Buffer) (i : SizeT) (c : Byte)
    : SameStorage heap (b.storeAt heap i c) b b := by
  unfold storeAt
  split
  . apply SameStorage.refl
  . next p hp => apply sameStorage_store hp

theorem sameStorage_resize (heap : Heap) (b : Buffer) (n : SizeT)
    : SameStorage heap heap b (b.resize n).2 := by
  unfold resize
  split
  . apply SameStorage.refl
  . exact ⟨rfl, rfl, fun _ => Iff.rfl, rfl, fun _ _ => rfl⟩

theorem sameStorage_assign (heap : Heap) (b : Buffer) (source : Source)
    : SameStorage heap (b.assign heap source).2.2 b (b.assign heap source).2.1 := by
  unfold assign
  split
  . apply SameStorage.refl
  . split
    . exact ⟨rfl, rfl, fun _ => Iff.rfl, rfl, fun _ _ => rfl⟩
    . split
      . apply SameStorage.refl
      . apply (sameStorage_copyAt heap b 0 source.bytes).trans
        apply sameStorage_resize

theorem sameStorage_append (heap : Heap) (b : Buffer) (source : Source)
    : SameStorage heap (b.append heap source).2.2 b (b.append heap source).2.1 := by
  have hresize := sameStorage_resize heap b (b.size + source.size)
  unfold append
  split
  . apply SameStorage.refl
  . split
    . apply SameStorage.refl
    . split
      . apply SameStorage.refl
      . dsimp only
        split
        . exact hresize
        . apply hresize.trans
          apply sameStorage_copyAt

theorem sameStorage_pushBack (heap : Heap) (b : Buffer) (c : Byte)
    : SameStorage heap (b.pushBack heap c).2.2 b (b.pushBack heap c).2.1 := by
  unfold pushBack
  split
  . apply SameStorage.refl
  . split
    . apply SameStorage.refl
    . apply (sameStorage_storeAt heap b b.size c).trans
      exact ⟨rfl, rfl, fun _ => Iff.rfl, rfl, fun _ _ => rfl⟩

end SameStorage

namespace Accounted

variable {heap₀ heap heap' : Heap} {data : Nat → Option Buffer} {b b' : Buffer} {v u : Nat}

theorem init (heap : Heap) : Accounted heap heap fun _ => none := by
  constructor
  . exact .init heap
  . simp

theorem base_update (h : Accounted heap₀ heap data) {r : Option Buffer}
    (hr : ∀ b p, r = some b → b.owner = true → b.data = some p → p.offset = 0)
    : ∀ u b p, Function.update data v r u = some b → b.owner = true → b.data = some p → p.offset = 0 := by
  intro u b p hu
  by_cases heq : u = v
  . rw [heq, Function.update_self] at hu
    apply hr b p hu
  . rw [Function.update_of_ne heq] at hu
    apply h.base u b p hu

theorem keep (h : Accounted heap₀ heap data) (hv : data v = some b) (hsame : SameStorage heap heap' b b')
    : Accounted heap₀ heap' (Function.update data v (some b')) := by
  have hholds : ((·.bind storage) ∘ Function.update data v (some b')) = ((·.bind storage) ∘ data) := by
    rw [Function.comp_update, Option.bind_some, hsame.storage]
    apply Function.update_eq_self_iff.mpr
    rw [Function.comp_apply, hv, Option.bind_some]
  constructor
  . rw [hholds]
    exact h.congr hsame.allocated hsame.next
  . apply h.base_update
    intro c p hc howner hp
    cases hc
    rw [hsame.owner] at howner
    rw [hsame.data] at hp
    apply h.base v b p hv howner hp

theorem external (h : Accounted heap₀ heap data) (hv : data v = none) (hb : b.owner = false)
    : Accounted heap₀ heap (Function.update data v (some b)) := by
  have hstorage : b.storage = none := by
    unfold storage
    rw [hb]
    rfl
  have hholds : ((·.bind storage) ∘ Function.update data v (some b)) = ((·.bind storage) ∘ data) := by
    rw [Function.comp_update, Option.bind_some, hstorage]
    apply Function.update_eq_self_iff.mpr
    rw [Function.comp_apply, hv, Option.bind_none]
  constructor
  . rw [hholds]
    exact h.toCustody
  . apply h.base_update
    intro c p hc howner
    cases hc
    rw [hb] at howner
    simp at howner

theorem ofCapacity (h : Accounted heap₀ heap data) (hv : data v = none) (n : SizeT)
    (garbage : Option (Nat → Byte))
    : Accounted heap₀ (ofCapacity heap n garbage).2
        (Function.update data v (some (ofCapacity heap n garbage).1)) := by
  have hnone : ((·.bind storage) ∘ data) v = none := by
    rw [Function.comp_apply, hv, Option.bind_none]
  rcases ofCapacity_eq heap n garbage with ⟨_, bytes, hwell, _, heq⟩ | ⟨_, hwell, heq⟩
  . rw [heq]
    constructor
    . rw [Function.comp_update]
      apply h.alloc hnone
    . apply h.base_update
      intro c p hc _ hp
      cases hc
      cases hp
      rfl
  . rw [heq]
    constructor
    . rw [Function.comp_update, Function.update_eq_self_iff.mpr]
      . exact h.toCustody
      . rw [hnone]
        rfl
    . apply h.base_update
      intro c p hc _ hp
      cases hc
      simp at hp

theorem allocated_destroy (heap : Heap) (b : Buffer) (k : Nat)
    : (b.destroy heap).Allocated k ↔ heap.Allocated k ∧ b.storage ≠ some k := by
  unfold Buffer.destroy storage
  split
  . unfold Heap.deleteBytes
    split
    . next hp => simp [hp]
    . next p hp =>
      rw [hp, heap.allocated_free]
      simp [eq_comm]
  . simp

theorem allocated_of_destroy (hv : data v = some b) (k : Nat)
    : (b.destroy heap).Allocated k ↔ heap.Allocated k ∧ ((·.bind storage) ∘ data) v ≠ some k := by
  rw [allocated_destroy, Function.comp_apply, hv]
  rfl

theorem destroy (h : Accounted heap₀ heap data) (hv : data v = some b)
    : Accounted heap₀ (b.destroy heap) (Function.update data v none) := by
  constructor
  . rw [Function.comp_update]
    apply h.release (allocated_of_destroy hv) (next_destroy heap b)
  . apply h.base_update
    simp

theorem moveConstruct (h : Accounted heap₀ heap data) (hv : data v = none) (hu : data u = some b)
    : Accounted heap₀ heap
        (Function.update (Function.update data u (some b.moveConstruct.2)) v (some b.moveConstruct.1)) := by
  have hholds : ((·.bind storage) ∘ data) u = b.storage := by
    rw [Function.comp_apply, hu]
    rfl
  have hmove : Custody heap₀ heap (Function.update (Function.update _ u none) v _) :=
    h.move (by rw [Function.comp_apply, hv]; rfl)
  rw [hholds] at hmove
  constructor
  . rw [Function.comp_update, Function.comp_update]
    exact hmove
  . intro w c p hw
    by_cases heq : w = v
    . rw [heq, Function.update_self] at hw
      cases hw
      apply h.base u b p hu
    . rw [Function.update_of_ne heq] at hw
      apply h.base_update (v := u) (r := some b.moveConstruct.2) _ w c p hw
      intro c p hc howner
      cases hc
      simp [Buffer.moveConstruct, movedFrom] at howner

theorem moveAssign (h : Accounted heap₀ heap data) (hv : data v = some b) (hu : data u = some b')
    (hne : v ≠ u)
    : Accounted heap₀ (b.moveAssign heap b').2.2
        (Function.update (Function.update data u (some (b.moveAssign heap b').2.1)) v
          (some (b.moveAssign heap b').1)) := by
  have hholds : ((·.bind storage) ∘ data) u = b'.storage := by
    rw [Function.comp_apply, hu]
    rfl
  have hreplace : Custody heap₀ (b.destroy heap) (Function.update (Function.update _ u none) v _) :=
    h.replace (allocated_of_destroy hv) (next_destroy heap b) hne.symm
  rw [hholds] at hreplace
  constructor
  . rw [Function.comp_update, Function.comp_update]
    exact hreplace
  . intro w c p hw
    by_cases heq : w = v
    . rw [heq, Function.update_self] at hw
      cases hw
      apply h.base u b' p hu
    . rw [Function.update_of_ne heq] at hw
      apply h.base_update (v := u) (r := some (b.moveAssign heap b').2.1) _ w c p hw
      intro c p hc howner
      cases hc
      simp [Buffer.moveAssign, movedFrom] at howner

end Accounted

namespace World

variable {heap₀ : Heap} {w w' : World} {o : Out}

theorem construct_cases {v : Nat} {result : Buffer × Heap} (h : w.construct v result = some (w', o))
    : w.buffers v = none ∧ w' = w.set result.2 v (some result.1) := by
  unfold construct at h
  split at h
  . simp at h
  . next hv =>
    cases h
    exact ⟨hv, rfl⟩

theorem accounted_mutate {v : Nat} {f : Buffer → Bool × Buffer × Heap} (h : Accounted heap₀ w.heap w.buffers)
    (hsame : ∀ b, SameStorage w.heap (f b).2.2 b (f b).2.1) (hstep : w.mutate v f = some (w', o))
    : Accounted heap₀ w'.heap w'.buffers := by
  rcases mutate_cases hstep with ⟨b, hb, _, rfl, _⟩
  apply h.keep hb (hsame b)

theorem accounted_step (h : Accounted heap₀ w.heap w.buffers) {op : Op}
    (hstep : w.step op = some (w', o))
    : Accounted heap₀ w'.heap w'.buffers := by
  cases op with
  | ofCapacity v capacity garbage =>
    rcases construct_cases hstep with ⟨hv, rfl⟩
    apply h.ofCapacity hv
  | ofExternal v external =>
    unfold step at hstep
    dsimp only at hstep
    split at hstep
    . rcases construct_cases hstep with ⟨hv, rfl⟩
      apply h.external hv rfl
    . simp at hstep
  | destroy v =>
    unfold step at hstep
    dsimp only at hstep
    split at hstep
    . simp at hstep
    . next b hb =>
      cases hstep
      apply h.destroy hb
  | assign v source =>
    unfold step at hstep
    dsimp only at hstep
    split at hstep
    . apply accounted_mutate h _ hstep
      intro b
      apply sameStorage_assign
    . simp at hstep
  | append v source =>
    unfold step at hstep
    dsimp only at hstep
    split at hstep
    . apply accounted_mutate h _ hstep
      intro b
      apply sameStorage_append
    . simp at hstep
  | pushBack v byte =>
    apply accounted_mutate h _ hstep
    intro b
    apply sameStorage_pushBack
  | resize v k =>
    unfold step at hstep
    dsimp only at hstep
    split at hstep
    . simp at hstep
    . next b hb =>
      cases hstep
      apply h.keep hb
      apply sameStorage_resize
  | clean v =>
    unfold step at hstep
    dsimp only at hstep
    split at hstep
    . simp at hstep
    . next b hb =>
      cases hstep
      apply h.keep hb
      exact ⟨rfl, rfl, fun _ => Iff.rfl, rfl, fun _ _ => rfl⟩
  | moveConstruct v u =>
    unfold step at hstep
    dsimp only at hstep
    split at hstep
    . next other hv hu =>
      cases hstep
      apply h.moveConstruct hv hu
    . simp at hstep
  | moveAssign v u =>
    unfold step at hstep
    dsimp only at hstep
    split at hstep
    . next b other hv hu =>
      split at hstep
      . cases hstep
        exact h
      . next hne =>
        cases hstep
        apply h.moveAssign hv hu hne
    . simp at hstep

theorem accounted_run {trace : List (Op × Out)}
    (hrun : Transition.Run (Transition.ofStep step) (init heap₀) trace w)
    : Accounted heap₀ w.heap w.buffers := by
  apply hrun.invariant (.init heap₀)
  intro w op o w' h hstep
  apply accounted_step h hstep

end World

open Transition

/--
A block that `new` has returned stays allocated as long as one buffer owns it, of which there is never
more than one. What is deleted is always the start of such a block, and the blocks of the callers are
never deleted, so that nothing is left of buffers that are all gone.
-/
theorem storage_accounted (heap : Heap) {trace : List (Op × Out)} {w : World}
    (hrun : Run (ofStep World.step) (World.init heap) trace w)
    : (∀ k, heap.next ≤ k → (w.heap.Allocated k ↔ ∃ v, (w.buffers v).bind storage = some k))
        ∧ (∀ v u k, (w.buffers v).bind storage = some k → (w.buffers u).bind storage = some k → v = u)
        ∧ (∀ v b p, w.buffers v = some b → b.owner = true → b.data = some p
            → p.offset = 0 ∧ heap.next ≤ p.block ∧ w.heap.Allocated p.block)
        ∧ (∀ k < heap.next, w.heap.Allocated k ↔ heap.Allocated k)
        ∧ ((∀ v, w.buffers v = none) → ∀ k, w.heap.Allocated k ↔ heap.Allocated k) := by
  have h := World.accounted_run hrun
  refine ⟨?_, h.exclusive.unique, ?_, h.callers, ?_⟩
  . intro k hk
    exact h.allocated_iff hk
  . intro v b p hb howner hp
    have hstorage : b.storage = some p.block := by
      unfold storage
      rw [howner, hp]
      rfl
    have hheld := h.exclusive.held v p.block (by rw [Function.comp_apply, hb]; exact hstorage)
    exact ⟨h.base v b p hb howner hp, hheld⟩
  . intro hnone k
    apply h.allocated_of_none
    intro v
    rw [Function.comp_apply, hnone]
    rfl

theorem storage_accounted_of_moves
    : let heap : Heap := (Memory.empty.alloc [1, 2, 3, 4]).2
      let ops : List Op :=
        [.ofCapacity 0 4 (some fun _ => 7), .ofCapacity 1 2 (some fun _ => 0),
          .ofExternal 2 ⟨some ⟨0, 1⟩, 3⟩, .moveAssign 1 0, .destroy 0, .moveConstruct 3 1,
          .moveAssign 2 3, .destroy 1]
      ∃ w outs, exec World.step (World.init heap) ops = some (w, outs)
        ∧ w.heap.Allocated 1 ∧ (∀ v, (w.buffers v).bind storage = some 1 → v = 2)
        ∧ w.heap.Allocated 0 := by
  intro heap ops
  have hexec : ((exec World.step (World.init heap) ops).map fun r =>
      (r.1.buffers 2).bind storage) = some (some 1) := by decide
  rcases Option.map_eq_some_iff.mp hexec with ⟨⟨w, outs⟩, hexec, hholds⟩
  rcases storage_accounted heap (run_of_exec hexec) with ⟨howned, hunique, _, hcallers, _⟩
  refine ⟨w, outs, hexec, ?_, ?_, ?_⟩
  . rw [howned 1 (by decide)]
    exact ⟨2, hholds⟩
  . intro v hv
    apply hunique v 2 1 hv hholds
  . rw [hcallers 0 (by decide)]
    unfold Memory.Allocated
    decide

end Buffer

end Sfap
