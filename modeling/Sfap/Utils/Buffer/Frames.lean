import Sfap.Utils.Buffer.Simulation

/-!
This module contains what the operations on buffers leave alone, and with it the contract of `Buffer`
over whole runs.
-/

namespace Sfap

namespace Buffer

-- the byte at `j` of block `q` is one that the operation puts, if it succeeds
def World.Writes (w : World) (op : Op) (q j : Nat) : Prop :=
  ∃ v start bs b p, op.put? = some (v, start, bs) ∧ w.buffers v = some b ∧ b.data = some p
    ∧ q = p.block ∧ p.offset + start b ≤ j ∧ j < p.offset + start b + bs.length

def Shows (heap : Heap) (arrays : Nat → Option (List Byte)) (b : Buffer) (y : Option Window)
    : Prop :=
  b.size.toNat ≤ b.capacity.toNat
    ∧ match y with
      | none =>
        b.isValid = false ∧ b.capacity.toNat = 0 ∧ b.size.toNat = 0 ∧ heap.bytes b.view = []
          ∧ b.free = 0 ∧ b.empty = true ∧ b.full = false ∧ ∀ i, b.atIndex heap i = none
      | some x =>
        b.isValid = true ∧ b.capacity.toNat = x.capacity ∧ b.size.toNat = x.used
          ∧ b.free.toNat = x.capacity - x.used ∧ (b.empty = true ↔ x.used = 0)
          ∧ (b.full = true ↔ x.used = x.capacity)
          ∧ (b.Live heap → heap.bytes b.view = x.view arrays
            ∧ ∀ i, b.atIndex heap i = (x.view arrays)[i.toNat]?)

namespace World

variable {n : Nat} {w w' : World} {a : ArrayWorld} {v : Nat} {b : Buffer} {op : Op} {o : Out}
  {q : Nat} {bs bs' : List Byte}

theorem Refines.shows (h : w.Refines n a) (v : Nat)
    : Option.Rel (Shows w.heap a.arrays) (w.buffers v) (a.windows v) := by
  rw [h.windows v]
  cases w.buffers v with
  | none => exact .none
  | some b =>
    apply Option.Rel.some
    refine ⟨b.size_le, ?_⟩
    rcases Option.eq_none_or_eq_some b.data with hp | ⟨p, hp⟩
    . have hzero := b.capacity_of_null hp
      have hle := b.size_le
      have hnull := b.isValid_of_null hp
      rw [window_of_null hp]
      refine ⟨hnull, hzero, by omega, bytes_view_null hp, ?_, ?_, ?_, ?_⟩
      . unfold Buffer.free
        rw [hnull]
        rfl
      . unfold Buffer.empty
        rw [hnull]
        rfl
      . unfold Buffer.full
        rw [hnull]
        rfl
      . intro i
        unfold Buffer.atIndex
        rw [hnull]
        rfl
    . have hvalid := b.isValid_of_data hp
      rw [window_of_data hp]
      refine ⟨hvalid, rfl, rfl, ?_, ?_, ?_, ?_⟩
      . unfold Buffer.free
        rw [if_pos hvalid, Word.toNat_sub_of_toNat_le b.size_le]
      . unfold Buffer.empty
        rw [if_pos hvalid, beq_iff_eq, Word.eq_zero_iff_toNat]
      . unfold Buffer.full
        rw [if_pos hvalid, beq_iff_eq, ← UInt64.toNat_inj]
      . intro hlive
        rcases hlive.backs hp with ⟨bs, hbs, _⟩
        have hview : w.heap.bytes b.view
            = Window.view a.arrays ⟨p.block, p.offset, b.capacity.toNat, b.size.toNat, b.size_le⟩ := by
          rw [bytes_view hp]
          unfold Memory.load Window.view Window.storage
          dsimp only
          rw [hbs, h.arrays _ _ hbs, List.take_take, Nat.min_eq_left b.size_le]
        refine ⟨hview, ?_⟩
        intro i
        rw [← hview]
        apply atIndex_eq hp ((hlive.backs hp).mono b.size_le)

theorem Refines.live (h : w.Refines n a) {p : Ptr} (hb : w.buffers v = some b)
    (hp : b.data = some p) (hkept : b.owner = true ∨ p.block < n)
    : b.Live w.heap := by
  unfold Live
  rw [hp]
  apply (h.inv.ok v b hb).live p hp hkept

theorem step_heap (hput : op.put? = none) (hstep : w.step op = some (w', o))
    : (w'.heap = w.heap ∨ (∃ bytes, w'.heap = (w.heap.alloc bytes).2)
          ∨ ∃ b : Buffer, w'.heap = b.destroy w.heap)
        ∧ (o = .flag false → w' = w) := by
  cases op with
  | ofCapacity v capacity garbage =>
    unfold step construct at hstep
    dsimp only at hstep
    split at hstep
    . simp at hstep
    . cases hstep
      refine ⟨?_, by simp⟩
      rcases ofCapacity_eq w.heap capacity garbage with ⟨_, bytes, _, _, heq⟩ | ⟨_, _, heq⟩
      . rw [heq]
        exact .inr (.inl ⟨bytes, rfl⟩)
      . rw [heq]
        exact .inl rfl
  | ofExternal v external =>
    unfold step construct at hstep
    dsimp only at hstep
    split at hstep
    . split at hstep
      . simp at hstep
      . cases hstep
        exact ⟨.inl rfl, by simp⟩
    . simp at hstep
  | destroy v =>
    unfold step at hstep
    dsimp only at hstep
    split at hstep
    . simp at hstep
    . next b _ =>
      cases hstep
      exact ⟨.inr (.inr ⟨b, rfl⟩), by simp⟩
  | resize v k =>
    rcases step_resize hstep with ⟨b, _, ⟨_, rfl, rfl⟩ | ⟨_, rfl, rfl⟩⟩
    . exact ⟨.inl rfl, by simp⟩
    . exact ⟨.inl rfl, fun _ => rfl⟩
  | clean v =>
    unfold step at hstep
    dsimp only at hstep
    split at hstep
    . simp at hstep
    . cases hstep
      exact ⟨.inl rfl, by simp⟩
  | moveConstruct v u =>
    unfold step at hstep
    dsimp only at hstep
    split at hstep
    . cases hstep
      exact ⟨.inl rfl, by simp⟩
    . simp at hstep
  | moveAssign v u =>
    unfold step at hstep
    dsimp only at hstep
    split at hstep
    . next b other _ _ =>
      split at hstep
      . cases hstep
        exact ⟨.inl rfl, by simp⟩
      . cases hstep
        exact ⟨.inr (.inr ⟨b, rfl⟩), by simp⟩
    . simp at hstep
  | _ => simp [Op.put?] at hput

theorem step_blocks (hput : op.put? = none) (hstep : w.step op = some (w', o))
    (hq : w.heap.blocks q = some bs) (hq' : w'.heap.blocks q = some bs')
    : bs' = bs := by
  have hold : w.heap.blocks q = some bs' := by
    rcases (step_heap hput hstep).1 with hsame | ⟨bytes, halloc⟩ | ⟨b, hdestroy⟩
    . rw [hsame] at hq'
      exact hq'
    . have hlt : q < w.heap.next := by
        apply Nat.lt_of_not_le
        intro hle
        rw [w.heap.fresh q hle] at hq
        simp at hq
      rw [halloc, Memory.alloc_blocks _ _ hlt] at hq'
      exact hq'
    . rw [hdestroy] at hq'
      apply blocks_of_destroy hq'
  rw [hq, Option.some.injEq] at hold
  exact hold.symm

theorem step_frame (h : w.Inv n) (hstep : w.step op = some (w', o))
    (hq : w.heap.blocks q = some bs) (hq' : w'.heap.blocks q = some bs') {j : Nat}
    (hnot : o = .flag true → ¬ w.Writes op q j)
    : bs'[j]? = bs[j]? := by
  cases hput : op.put? with
  | none => rw [step_blocks hput hstep hq hq']
  | some target =>
    rcases target with ⟨v, start, source⟩
    rcases h.step_put hput hstep with ⟨b, result, hb, hlive, hputs, rfl, rfl⟩
    rcases hputs with ⟨p, k, hk, hp, hsize, rfl⟩ | ⟨_, rfl⟩
    . have hnot := hnot rfl
      have hq' : (w.heap.store (p.add (start b)) source).blocks q = some bs' := hq'
      rcases hlive.backs hp with ⟨cs, hcs, hroom⟩
      unfold Memory.store Ptr.add at hq'
      dsimp only at hq'
      by_cases heq : q = p.block
      . rw [heq] at hq hq'
        rw [hcs] at hq
        cases hq
        rw [if_pos rfl, hcs, Option.map_some] at hq'
        cases hq'
        rw [List.getElem?_splice (by omega), if_neg]
        intro hinside
        apply hnot ⟨v, start, source, b, p, hput, hb, hp, heq, hinside⟩
      . rw [if_neg heq, hq] at hq'
        cases hq'
        rfl
    . have hq' : w.heap.blocks q = some bs' := hq'
      rw [hq] at hq'
      cases hq'
      rfl

theorem step_false (h : w.Inv n) (hstep : w.step op = some (w', .flag false)) : w' = w := by
  cases hput : op.put? with
  | some target =>
    rcases target with ⟨v, start, source⟩
    rcases h.step_put hput hstep with ⟨b, result, hb, _, hputs, rfl, hflag⟩
    rcases hputs with ⟨_, _, _, _, _, rfl⟩ | ⟨_, rfl⟩
    . simp at hflag
    . apply set_self hb
  | none => apply (step_heap hput hstep).2 rfl

theorem put_succeeds_iff (h : w.Inv n) {start : Buffer → Nat} {ok : Bool}
    (hput : op.put? = some (v, start, bs)) (hb : w.buffers v = some b)
    (hstep : w.step op = some (w', .flag ok))
    : ok = true ↔ b.isValid = true ∧ start b + bs.length ≤ b.capacity.toNat := by
  rcases h.step_put hput hstep with ⟨c, result, hc, _, hputs, _, hflag⟩
  cases hb.symm.trans hc
  cases hflag
  exact hputs.ok_iff

theorem resize_resize {k m : SizeT} {w₁ w₂ : World} (hb : w.buffers v = some b)
    (h₁ : w.step (.resize v k) = some (w₁, .flag true))
    (h₂ : w₁.step (.resize v m) = some (w₂, .flag true))
    : w₂.heap = w.heap ∧ ∃ b₂, w₂.buffers v = some b₂ ∧ b₂.size = m
        ∧ (w₂.heap.bytes b₂.view).take b.size.toNat = (w.heap.bytes b.view).take m.toNat := by
  rcases step_resize h₁ with ⟨c, hc, ⟨hk, rfl, _⟩ | ⟨_, _, hflag⟩⟩
  . cases hb.symm.trans hc
    rcases step_resize h₂ with ⟨d, hd, ⟨hm, rfl, _⟩ | ⟨_, _, hflag⟩⟩
    . have hd : Function.update w.buffers v (some (b.withSize k hk)) v = some d := hd
      rw [Function.update_self] at hd
      cases hd
      refine ⟨rfl, (b.withSize k hk).withSize m hm, ?_, rfl, ?_⟩
      . unfold set
        dsimp only
        rw [Function.update_self]
      . unfold set
        dsimp only
        rcases Option.eq_none_or_eq_some b.data with hp | ⟨p, hp⟩
        . have hdata : ((b.withSize k hk).withSize m hm).data = none := hp
          rw [bytes_view_null hp, bytes_view_null hdata, List.take_nil, List.take_nil]
        . have hdata : ((b.withSize k hk).withSize m hm).data = some p := hp
          rw [bytes_view hp, bytes_view hdata, size_withSize]
          unfold Memory.load
          rw [List.take_take, List.take_take, Nat.min_comm]
    . simp at hflag
  . simp at hflag

end World

open Transition

/--
Any number of buffers behave like windows onto byte arrays. The blocks that have been there from the
start are the callers', the others are owned by buffers.
-/
theorem refines_arrays (heap : Heap) {trace : List (Op × Out)} {w : World}
    (hrun : Run (ofStep World.step) (World.init heap) trace w)
    : (∃ a, Run ArrayWorld.Step (.init heap.blocks) trace a
          ∧ ∀ v, Option.Rel (Shows w.heap a.arrays) (w.buffers v) (a.windows v))
        ∧ (∀ v b p, w.buffers v = some b → b.data = some p
            → b.owner = true ∨ p.block < heap.next
            → b.Live w.heap)
        ∧ (∀ op v start bs b w' ok, op.put? = some (v, start, bs) → w.buffers v = some b
            → w.step op = some (w', .flag ok)
            → (ok = true ↔ b.isValid = true ∧ start b + bs.length ≤ b.capacity.toNat))
        ∧ (∀ op w' o q j bs bs', w.step op = some (w', o) → w.heap.blocks q = some bs
            → w'.heap.blocks q = some bs'
            → (o = .flag true → ¬ w.Writes op q j)
            → bs'[j]? = bs[j]?)
        ∧ (∀ v b k m w₁ w₂, w.buffers v = some b
            → w.step (.resize v k) = some (w₁, .flag true)
            → w₁.step (.resize v m) = some (w₂, .flag true)
            → w₂.heap = w.heap ∧ ∃ b₂, w₂.buffers v = some b₂ ∧ b₂.size = m
              ∧ (w₂.heap.bytes b₂.view).take b.size.toNat = (w.heap.bytes b.view).take m.toNat)
        ∧ (∀ op w', w.step op = some (w', .flag false) → w' = w) := by
  rcases World.run_refines hrun with ⟨a, hspec, href⟩
  refine ⟨⟨a, hspec, href.shows⟩, ?_, ?_, ?_, ?_, ?_⟩
  . intro v b p hb hp hkept
    apply href.live hb hp hkept
  . intro op v start bs b w' ok hput hb hstep
    apply World.put_succeeds_iff href.inv hput hb hstep
  . intro op w' o q j bs bs' hstep hq hq' hnot
    apply World.step_frame href.inv hstep hq hq' hnot
  . intro v b k m w₁ w₂ hb h₁ h₂
    apply World.resize_resize hb h₁ h₂
  . intro op w' hstep
    apply World.step_false href.inv hstep

theorem refines_arrays_of_shared_memory
    : let source (bytes : List Byte) (h : bytes.length < 2 ^ 64) : Source := ⟨bytes, h⟩
      let heap : Heap := (Memory.empty.alloc [1, 2, 3, 4]).2
      let ops : List Op :=
        [.ofCapacity 0 4 (some fun _ => 7), .append 0 (source [97, 98, 99] (by decide)),
          .resize 0 1, .ofCapacity 3 4 none, .ofExternal 1 ⟨some ⟨0, 1⟩, 3⟩, .pushBack 1 9,
          .ofExternal 2 ⟨some ⟨0, 0⟩, 4⟩, .resize 2 4, .assign 2 (source [0, 0, 0, 0, 0] (by decide)),
          .moveAssign 0 0, .moveAssign 1 0, .resize 1 3]
      let outs : List Out :=
        [.valid true, .flag true, .flag true, .valid false, .valid true, .flag true, .valid true,
          .flag true, .flag false, .done, .done, .flag true]
      ∃ a, Run ArrayWorld.Step (.init heap.blocks) (ops.zip outs) a
        ∧ (a.windows 1).map (·.map (·.view a.arrays)) = some (some [97, 98, 99])
        ∧ (a.windows 2).map (·.map (·.view a.arrays)) = some (some [1, 9, 3, 4]) := by
  intro source heap ops outs
  have hexec : ((exec World.step (World.init heap) ops).map fun r =>
      (r.2, [1, 2].map fun v => (r.1.buffers v).bind fun b =>
        if b.isValid ∧ b.Live r.1.heap then some (r.1.heap.bytes b.view) else none))
        = some (outs, [some [97, 98, 99], some [1, 9, 3, 4]]) := by decide
  rcases Option.map_eq_some_iff.mp hexec with ⟨⟨w, outs'⟩, hexec, heq⟩
  simp only [Prod.mk.injEq, List.map_cons, List.map_nil, List.cons.injEq, and_true] at heq
  rcases heq with ⟨rfl, hone, htwo⟩
  rcases (refines_arrays heap (run_of_exec hexec)).1 with ⟨a, hspec, hrel⟩
  have hview : ∀ v bytes, ((w.buffers v).bind fun b =>
      if b.isValid ∧ b.Live w.heap then some (w.heap.bytes b.view) else none) = some bytes →
      (a.windows v).map (·.map (·.view a.arrays)) = some (some bytes) := by
    intro v bytes hv
    have hshows := hrel v
    generalize w.buffers v = r at hshows hv
    generalize a.windows v = y at hshows ⊢
    cases hshows with
    | none => simp at hv
    | @some b x hx =>
      rw [Option.bind_some, Option.ite_none_right_eq_some] at hv
      rcases hv with ⟨⟨hvalid, hlive⟩, hbytes⟩
      cases x with
      | none => simp [hx.2.1] at hvalid
      | some x =>
        rw [Option.map_some, Option.map_some, ← (hx.2.2.2.2.2.2.2 hlive).1]
        rw [Option.some.inj hbytes]
  exact ⟨a, hspec, hview 1 _ hone, hview 2 _ htwo⟩

end Buffer

end Sfap
