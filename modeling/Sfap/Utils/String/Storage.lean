import Sfap.Utils.Buffer.Storage
import Sfap.Utils.String.Simulation

/-!
This module contains the accounts of the storage of strings, whose constructors allocate one buffer and
whose mutators never move it.
-/

namespace Sfap

namespace String

open Buffer (Accounted SameStorage storage)

section SameStorage

variable (heap : Heap) (s : String)

theorem sameStorage_resize (n : SizeT)
    : SameStorage heap (s.resize heap n).2.2 s.data (s.resize heap n).2.1.data := by
  have hresize := Buffer.sameStorage_resize heap s.data (n + 1)
  unfold resize
  split
  . apply SameStorage.refl
  . dsimp only
    split
    . apply SameStorage.refl
    . apply hresize.trans
      apply Buffer.sameStorage_storeAt

theorem sameStorage_assign (source : Source)
    : SameStorage heap (s.assign heap source).2.2 s.data (s.assign heap source).2.1.data := by
  have hresize := s.sameStorage_resize heap source.size
  unfold assign
  split
  . apply SameStorage.refl
  . dsimp only
    split
    . exact hresize
    . apply hresize.trans
      apply Buffer.sameStorage_copyAt

theorem sameStorage_append (source : Source)
    : SameStorage heap (s.append heap source).2.2 s.data (s.append heap source).2.1.data := by
  have hresize := s.sameStorage_resize heap (s.size + source.size)
  unfold append
  split
  . apply SameStorage.refl
  . dsimp only
    split
    . exact hresize
    . apply hresize.trans
      apply Buffer.sameStorage_copyAt

theorem sameStorage_pushBack (ch : Byte)
    : SameStorage heap (s.pushBack heap ch).2.2 s.data (s.pushBack heap ch).2.1.data := by
  have hresize := s.sameStorage_resize heap (s.size + 1)
  unfold pushBack
  split
  . apply SameStorage.refl
  . split
    . apply SameStorage.refl
    . dsimp only
      split
      . exact hresize
      . apply hresize.trans
        apply Buffer.sameStorage_storeAt

theorem sameStorage_clean
    : SameStorage heap (s.clean heap).2 s.data (s.clean heap).1.data := by
  apply sameStorage_resize

end SameStorage

def Allocates (heap heap' : Heap) (s : String) : Prop :=
  ∃ n garbage,
    SameStorage (Buffer.ofCapacity heap n garbage).2 heap' (Buffer.ofCapacity heap n garbage).1 s.data

section Allocates

variable {heap heap₁ heap₂ : Heap} {s₁ s₂ : String}

theorem Allocates.then (h : Allocates heap heap₁ s₁) (hsame : SameStorage heap₁ heap₂ s₁.data s₂.data)
    : Allocates heap heap₂ s₂ := by
  rcases h with ⟨n, garbage, hfirst⟩
  exact ⟨n, garbage, hfirst.trans hsame⟩

theorem allocates_ofSize (heap : Heap) (n : SizeT) (garbage : Option (Nat → Byte))
    : Allocates heap (ofSize heap n garbage).2 (ofSize heap n garbage).1 := by
  refine ⟨n + 1, garbage, ?_⟩
  apply sameStorage_resize

theorem allocates_ofView (heap : Heap) (source : Source) (garbage : Option (Nat → Byte))
    : Allocates heap (ofView heap source garbage).2 (ofView heap source garbage).1 := by
  have h := allocates_ofSize heap source.size garbage
  unfold ofView
  dsimp only
  split
  . apply h.then
    apply sameStorage_assign
  . exact h

theorem allocates_ofCString (heap : Heap) (source : Option CString) (garbage : Option (Nat → Byte))
    : Allocates heap (ofCString heap source garbage).2 (ofCString heap source garbage).1 := by
  cases source with
  | none => exact ⟨0, garbage, SameStorage.refl _ _⟩
  | some chars =>
    refine ⟨chars.strlen + 1, garbage, ?_⟩
    unfold ofCString
    dsimp only
    split
    . apply sameStorage_assign
    . apply SameStorage.refl

theorem allocates_copy (heap : Heap) (other : String) (garbage : Option (Nat → Byte))
    : Allocates heap (copy heap other garbage).2 (copy heap other garbage).1 := by
  have h := allocates_ofSize heap other.size garbage
  unfold copy
  dsimp only
  split
  . apply h.then
    apply sameStorage_assign
  . exact h

end Allocates

structure Private (heap₀ heap : Heap) (data : Nat → Option Buffer) : Prop extends
    Accounted heap₀ heap data where
  owner : ∀ v b p, data v = some b → b.data = some p → b.owner = true
  untouched : ∀ k < heap₀.next, heap.blocks k = heap₀.blocks k

namespace Private

variable {heap₀ heap heap' : Heap} {data : Nat → Option Buffer} {b b' : Buffer} {v u : Nat} {p : Ptr}

theorem init (heap : Heap) : Private heap heap fun _ => none := by
  constructor
  . apply Accounted.init
  . simp
  . intro k _
    rfl

theorem storage_eq (h : Private heap₀ heap data) (hv : data v = some b) (hp : b.data = some p)
    : b.storage = some p.block := by
  unfold storage
  rw [h.owner v b p hv hp, hp]
  rfl

theorem le_block (h : Private heap₀ heap data) (hv : data v = some b) (hp : b.data = some p)
    : heap₀.next ≤ p.block := by
  have hholds : ((·.bind storage) ∘ data) v = some p.block := by
    rw [Function.comp_apply, hv]
    apply h.storage_eq hv hp
  exact (h.exclusive.held v p.block hholds).1

theorem owner_update (h : Private heap₀ heap data) {r : Option Buffer}
    (hr : ∀ b p, r = some b → b.data = some p → b.owner = true)
    : ∀ u b p, Function.update data v r u = some b → b.data = some p → b.owner = true := by
  intro u b p hu
  by_cases heq : u = v
  . rw [heq, Function.update_self] at hu
    apply hr b p hu
  . rw [Function.update_of_ne heq] at hu
    apply h.owner u b p hu

theorem keep (h : Private heap₀ heap data) (hv : data v = some b) (hsame : SameStorage heap heap' b b')
    : Private heap₀ heap' (Function.update data v (some b')) := by
  constructor
  . apply h.toAccounted.keep hv hsame
  . apply h.owner_update
    intro c p hc hp
    cases hc
    rw [hsame.data] at hp
    rw [hsame.owner]
    apply h.owner v b p hv hp
  . intro k hk
    rw [← h.untouched k hk]
    apply hsame.elsewhere
    intro p hp
    have := h.le_block hv hp
    omega

theorem ofCapacity (h : Private heap₀ heap data) (hv : data v = none) (n : SizeT)
    (garbage : Option (Nat → Byte))
    : Private heap₀ (Buffer.ofCapacity heap n garbage).2
        (Function.update data v (some (Buffer.ofCapacity heap n garbage).1)) := by
  constructor
  . apply h.toAccounted.ofCapacity hv
  . apply h.owner_update
    intro c p hc _
    cases hc
    rfl
  . intro k hk
    have hnext := h.next
    rw [← h.untouched k hk]
    rcases Buffer.ofCapacity_eq heap n garbage with ⟨_, bytes, _, _, heq⟩ | ⟨_, _, heq⟩
    . rw [heq]
      apply heap.alloc_blocks bytes
      omega
    . rw [heq]

theorem untouched_destroy (h : Private heap₀ heap data) (hv : data v = some b)
    : ∀ k < heap₀.next, (b.destroy heap).blocks k = heap₀.blocks k := by
  intro k hk
  rw [← h.untouched k hk]
  unfold Buffer.destroy Heap.deleteBytes
  split
  . split
    . rfl
    . next p hp =>
      have := h.le_block hv hp
      apply heap.free_blocks
      omega
  . rfl

theorem destroy (h : Private heap₀ heap data) (hv : data v = some b)
    : Private heap₀ (b.destroy heap) (Function.update data v none) := by
  constructor
  . apply h.toAccounted.destroy hv
  . apply h.owner_update
    simp
  . apply h.untouched_destroy hv

theorem owner_move (h : Private heap₀ heap data) (hu : data u = some b)
    : ∀ i c p, Function.update (Function.update data u (some Buffer.movedFrom)) v (some b) i = some c →
      c.data = some p → c.owner = true := by
  intro i c p hi
  by_cases heq : i = v
  . rw [heq, Function.update_self] at hi
    cases hi
    apply h.owner u b p hu
  . rw [Function.update_of_ne heq] at hi
    apply h.owner_update (v := u) (r := some Buffer.movedFrom) _ i c p hi
    intro c p hc hp
    cases hc
    simp [Buffer.movedFrom] at hp

theorem moveConstruct (h : Private heap₀ heap data) (hv : data v = none) (hu : data u = some b)
    : Private heap₀ heap
        (Function.update (Function.update data u (some b.moveConstruct.2)) v (some b.moveConstruct.1)) := by
  constructor
  . apply h.toAccounted.moveConstruct hv hu
  . apply h.owner_move hu
  . exact h.untouched

theorem moveAssign (h : Private heap₀ heap data) (hv : data v = some b) (hu : data u = some b')
    (hne : v ≠ u)
    : Private heap₀ (b.moveAssign heap b').2.2
        (Function.update (Function.update data u (some (b.moveAssign heap b').2.1)) v
          (some (b.moveAssign heap b').1)) := by
  constructor
  . apply h.toAccounted.moveAssign hv hu hne
  . apply h.owner_move hu
  . apply h.untouched_destroy hv

end Private

namespace World

def buffers (w : World) (v : Nat) : Option Buffer :=
  (w.strings v).map data

variable {heap₀ heap' : Heap} {w w' : World} {v u : Nat} {s other : String} {o : Out}

theorem buffers_set (strings : Nat → Option String) (r : Option String)
    : buffers ⟨heap', set strings v r⟩ = Function.update (buffers ⟨heap', strings⟩) v (r.map data) := by
  funext u
  unfold buffers
  dsimp only
  by_cases hu : u = v
  . rw [hu, strings_set, Function.update_self]
  . rw [strings_set_ne _ _ hu, Function.update_of_ne hu]

theorem buffers_some (hs : w.strings v = some s) : w.buffers v = some s.data := by
  unfold buffers
  rw [hs]
  rfl

theorem buffers_none (hv : w.strings v = none) : w.buffers v = none := by
  unfold buffers
  rw [hv]
  rfl

theorem of_storage {k : Nat} (h : ((·.bind storage) ∘ w.buffers) v = some k)
    : ∃ s p, w.strings v = some s ∧ s.data.owner = true ∧ s.data.data = some p ∧ p.block = k := by
  rw [Function.comp_apply, Option.bind_eq_some_iff] at h
  rcases h with ⟨b, hb, hstorage⟩
  rcases Option.map_eq_some_iff.mp hb with ⟨s, hs, rfl⟩
  unfold storage at hstorage
  split at hstorage
  . next howner =>
    rcases Option.map_eq_some_iff.mp hstorage with ⟨p, hp, hk⟩
    exact ⟨s, p, hs, howner, hp, hk⟩
  . simp at hstorage

theorem private_construct {result : String × Heap} (h : Private heap₀ w.heap w.buffers)
    (halloc : Allocates w.heap result.2 result.1) (hstep : w.construct v result = some (w', o))
    : Private heap₀ w'.heap w'.buffers := by
  unfold construct at hstep
  split at hstep
  . simp at hstep
  . next hv =>
    cases hstep
    rcases halloc with ⟨n, garbage, hsame⟩
    have hkept := (h.ofCapacity (buffers_none hv) n garbage).keep (Function.update_self ..) hsame
    rw [Function.update_idem] at hkept
    rw [buffers_set]
    exact hkept

theorem private_mutate {f : String → Bool × String × Heap} (h : Private heap₀ w.heap w.buffers)
    (hsame : ∀ s : String, SameStorage w.heap (f s).2.2 s.data (f s).2.1.data)
    (hstep : w.mutate v f = some (w', o))
    : Private heap₀ w'.heap w'.buffers := by
  unfold mutate at hstep
  split at hstep
  . simp at hstep
  . next s hs =>
    cases hstep
    rw [buffers_set]
    apply h.keep (buffers_some hs) (hsame s)

theorem private_moveConstruct (h : Private heap₀ w.heap w.buffers) (hv : w.strings v = none)
    (hu : w.strings u = some other)
    : Private heap₀ w.heap (buffers ⟨w.heap,
        set (set w.strings v (some other.moveConstruct.1)) u (some other.moveConstruct.2)⟩) := by
  have hne : u ≠ v := by
    rintro rfl
    rw [hv] at hu
    simp at hu
  rw [set_comm _ _ _ hne, buffers_set, buffers_set]
  apply h.moveConstruct (buffers_none hv) (buffers_some hu)

theorem private_moveAssign (h : Private heap₀ w.heap w.buffers) (hv : w.strings v = some s)
    (hu : w.strings u = some other) (hne : v ≠ u)
    : Private heap₀ (s.moveAssign w.heap other).2.2 (buffers ⟨(s.moveAssign w.heap other).2.2,
        set (set w.strings v (some (s.moveAssign w.heap other).1)) u
          (some (s.moveAssign w.heap other).2.1)⟩) := by
  rw [set_comm _ _ _ hne.symm, buffers_set, buffers_set]
  apply h.moveAssign (buffers_some hv) (buffers_some hu) hne

theorem private_step (h : Private heap₀ w.heap w.buffers) {op : Op} (hstep : w.step op = some (w', o))
    : Private heap₀ w'.heap w'.buffers := by
  cases op with
  | ofView v source garbage => apply private_construct h (allocates_ofView ..) hstep
  | ofCString v source garbage => apply private_construct h (allocates_ofCString ..) hstep
  | ofSize v n garbage => apply private_construct h (allocates_ofSize ..) hstep
  | copy v u garbage =>
    unfold step at hstep
    dsimp only at hstep
    split at hstep
    . simp at hstep
    . apply private_construct h (allocates_copy ..) hstep
  | destroy v =>
    unfold step at hstep
    dsimp only at hstep
    split at hstep
    . simp at hstep
    . next s hs =>
      cases hstep
      rw [buffers_set]
      apply h.destroy (buffers_some hs)
  | assign v source =>
    unfold step at hstep
    dsimp only at hstep
    split at hstep
    . apply private_mutate h (fun s => s.sameStorage_assign w.heap source) hstep
    . simp at hstep
  | assignCString v source =>
    apply private_mutate h (fun s => s.sameStorage_assign w.heap (CString.charsOf source)) hstep
  | append v source =>
    unfold step at hstep
    dsimp only at hstep
    split at hstep
    . apply private_mutate h (fun s => s.sameStorage_append w.heap source) hstep
    . simp at hstep
  | appendCString v source =>
    apply private_mutate h (fun s => s.sameStorage_append w.heap (CString.charsOf source)) hstep
  | pushBack v ch => apply private_mutate h (fun s => s.sameStorage_pushBack w.heap ch) hstep
  | resize v n => apply private_mutate h (fun s => s.sameStorage_resize w.heap n) hstep
  | clean v =>
    unfold step at hstep
    dsimp only at hstep
    split at hstep
    . simp at hstep
    . next s hs =>
      cases hstep
      rw [buffers_set]
      apply h.keep (buffers_some hs) (s.sameStorage_clean w.heap)
  | moveConstruct v u =>
    unfold step at hstep
    dsimp only at hstep
    split at hstep
    . next other hv hu =>
      cases hstep
      apply private_moveConstruct h hv hu
    . simp at hstep
  | moveAssign v u =>
    unfold step at hstep
    dsimp only at hstep
    split at hstep
    . next s other hv hu =>
      split at hstep
      . cases hstep
        exact h
      . next hne =>
        cases hstep
        apply private_moveAssign h hv hu hne
    . simp at hstep

theorem private_run {trace : List (Op × Out)}
    (hrun : Transition.Run (Transition.ofStep step) (init heap₀) trace w)
    : Private heap₀ w.heap w.buffers := by
  apply hrun.invariant (.init heap₀)
  intro w op o w' h hstep
  apply private_step h hstep

end World

open Transition

/--
Every block that the strings have allocated belongs to exactly one of them. What their callers have had
allocated is neither deleted nor written to, and is all that is left once the strings are gone.
-/
theorem storage_private (heap : Heap) {trace : List (Op × Out)} {w : World}
    (hrun : Run (ofStep World.step) (World.init heap) trace w)
    : (∀ k, heap.next ≤ k →
          (w.heap.Allocated k ↔ ∃ v s, w.strings v = some s ∧ s.data.data = some ⟨k, 0⟩))
        ∧ (∀ v u s t p q, w.strings v = some s → w.strings u = some t → s.data.data = some p
            → t.data.data = some q → p.block = q.block → v = u)
        ∧ (∀ k < heap.next, w.heap.blocks k = heap.blocks k)
        ∧ ((∀ v, w.strings v = none) → w.heap.blocks = heap.blocks) := by
  have h := World.private_run hrun
  have hholds {v : Nat} {s : String} {p : Ptr} (hs : w.strings v = some s) (hp : s.data.data = some p)
      : ((·.bind storage) ∘ w.buffers) v = some p.block := by
    have hv := World.buffers_some hs
    rw [Function.comp_apply, hv]
    apply h.storage_eq hv hp
  refine ⟨?_, ?_, h.untouched, ?_⟩
  . intro k hk
    constructor
    . intro halloc
      rcases h.exclusive.covered k ⟨hk, halloc⟩ with ⟨v, hv⟩
      rcases World.of_storage hv with ⟨s, p, hs, howner, hp, rfl⟩
      have hoffset := h.base v s.data p (World.buffers_some hs) howner hp
      refine ⟨v, s, hs, ?_⟩
      rw [hp, ← hoffset]
    . rintro ⟨v, s, hs, hp⟩
      exact (h.exclusive.held v k (hholds hs hp)).2
  . intro v u s t p q hs ht hp hq heq
    apply h.exclusive.unique v u p.block (hholds hs hp)
    rw [heq]
    apply hholds ht hq
  . intro hnone
    funext k
    rcases Nat.lt_or_ge k heap.next with hlt | hge
    . apply h.untouched k hlt
    . have hgone := h.exclusive.not_alive (k := k) (by
        intro v
        rw [Function.comp_apply, World.buffers_none (hnone v)]
        rfl)
      rw [heap.fresh k hge]
      by_contra halloc
      exact hgone ⟨hge, halloc⟩

theorem storage_private_of_copy
    : let source (bytes : List Byte) (h : bytes.length < 2 ^ 64) : Source := ⟨bytes, h⟩
      let heap : Heap := (Memory.empty.alloc [1, 2, 3, 4]).2
      let ops : List Op :=
        [.ofView 0 (source [97, 98] (by decide)) (some fun _ => 7), .copy 1 0 (some fun _ => 8),
          .moveConstruct 2 0, .assign 2 (source [99, 100] (by decide)), .copy 3 2 none, .destroy 0,
          .moveAssign 1 2, .destroy 3]
      ∃ w outs, exec World.step (World.init heap) ops = some (w, outs)
        ∧ w.heap.blocks 1 = some [99, 100, 0] ∧ w.heap.Allocated 1 ∧ w.heap.blocks 0 = some [1, 2, 3, 4] := by
  intro source heap ops
  have hexec : ((exec World.step (World.init heap) ops).map fun r =>
      (r.1.heap.blocks 1, (r.1.strings 1).bind fun s => s.data.data))
        = some (some [99, 100, 0], some ⟨1, 0⟩) := by decide
  rcases Option.map_eq_some_iff.mp hexec with ⟨⟨w, outs⟩, hexec, heq⟩
  rw [Prod.mk.injEq, Option.bind_eq_some_iff] at heq
  rcases heq with ⟨hblock, s, hs, hp⟩
  rcases storage_private heap (run_of_exec hexec) with ⟨howned, _, huntouched, _⟩
  refine ⟨w, outs, hexec, hblock, ?_, ?_⟩
  . rw [howned 1 (by decide)]
    exact ⟨1, s, hs, hp⟩
  . rw [huntouched 0 (by decide)]
    rfl

end String

end Sfap
