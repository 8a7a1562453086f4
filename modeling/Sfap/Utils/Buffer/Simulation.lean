import Sfap.Utils.Buffer.World

/-!
This module contains the proof that any number of buffers behave like windows onto arrays that never go
away, as long as their storage has not been freed.
-/

namespace Sfap

namespace Buffer

section Window

variable {b : Buffer} {p : Ptr}

theorem window_of_data (hp : b.data = some p)
    : b.window = some ⟨p.block, p.offset, b.capacity.toNat, b.size.toNat, b.size_le⟩ := by
  unfold window
  rw [hp]

theorem window_of_null (hp : b.data = none) : b.window = none := by
  unfold window
  rw [hp]

theorem isValid_eq (b : Buffer) : b.isValid = b.window.isSome := by
  unfold isValid window
  cases b.data with
  | none => rfl
  | some p => rfl

end Window

theorem ofCapacity_eq (heap : Heap) (n : SizeT) (garbage : Option (Nat → Byte))
    : (ArrayWorld.Allocated n garbage ∧ ∃ bytes h, bytes.length = n.toNat
          ∧ ofCapacity heap n garbage
              = (⟨some ⟨heap.next, 0⟩, n, true, 0, h⟩, (heap.alloc bytes).2))
        ∨
      (¬ ArrayWorld.Allocated n garbage ∧ ∃ h,
        ofCapacity heap n garbage = (⟨none, 0, true, 0, h⟩, heap)) := by
  have hnull : WellFormed none 0 0 := ⟨Nat.le_refl _, fun _ => rfl⟩
  unfold ArrayWorld.Allocated ofCapacity
  by_cases hzero : n = 0
  . right
    subst hzero
    exact ⟨by simp, hnull, rfl⟩
  . have hpos : 0 < n.toNat := by
      have := mt (Word.eq_zero_iff_toNat n).mpr hzero
      omega
    cases garbage with
    | none =>
      right
      refine ⟨by simp, hnull, ?_⟩
      simp [hzero, Heap.newBytes]
    | some g =>
      by_cases hmax : n.toNat ≤ ptrdiffMax
      . left
        refine ⟨⟨rfl, hpos, hmax⟩, (List.range n.toNat).map g, ⟨Nat.zero_le _, by simp⟩, ?_, ?_⟩
        . rw [List.length_map, List.length_range]
        . simp only [bne_iff_ne, ne_eq, hzero, not_false_eq_true, ↓reduceIte, Heap.newBytes, hmax,
            Option.isSome_some]
          rfl
      . right
        refine ⟨fun h => hmax h.2.2, hnull, ?_⟩
        simp [hzero, Heap.newBytes, hmax]

theorem ofExternal_cases (external : ByteSpan)
    : (∃ p, external.data = some p ∧ 0 < external.size.toNat
          ∧ (ofExternal external).data = some p ∧ (ofExternal external).capacity = external.size)
        ∨
      ((external.data = none ∨ external.size.toNat = 0) ∧ (ofExternal external).data = none) := by
  rcases external with ⟨data, size⟩
  unfold ofExternal
  by_cases hzero : size = 0
  . right
    simp [hzero]
  . have hpos := mt (Word.eq_zero_iff_toNat size).mpr hzero
    rcases Option.eq_none_or_eq_some data with rfl | ⟨p, rfl⟩
    . right
      simp
    . left
      refine ⟨p, rfl, ?_, ?_, ?_⟩
      . dsimp only
        omega
      . simp [hzero]
      . simp [hzero]

theorem ofExternal_window (external : ByteSpan)
    : (ofExternal external).window = ArrayWorld.external external := by
  unfold ArrayWorld.external
  rcases ofExternal_cases external with ⟨p, hp, hpos, hdata, hcapacity⟩ | ⟨hnull, hdata⟩
  . rw [hp, window_of_data hdata]
    dsimp only
    rw [if_neg (by omega)]
    simp only [hcapacity]
    rfl
  . rw [window_of_null hdata]
    split
    . rfl
    . next p hp =>
      rw [hp] at hnull
      rw [if_pos (by simpa using hnull)]

theorem ofExternal_ok {n : Nat} {heap : Heap} {external : ByteSpan} (h : Provided heap external)
    : (ofExternal external).Ok n heap := by
  rcases ofExternal_cases external with ⟨p, hp, _, hdata, hcapacity⟩ | ⟨_, hdata⟩
  . constructor
    . rw [hcapacity]
      exact h.1
    . intro q hq _
      cases hdata.symm.trans hq
      have hbacks := h.2
      rw [hp] at hbacks
      rw [hcapacity]
      exact hbacks
    . intro q _ howner
      simp [ofExternal] at howner
  . apply Ok.of_null _ hdata
    rw [capacity_of_null _ hdata]
    apply Nat.zero_le _

section Destroy

variable {heap : Heap} {b : Buffer}

theorem destroy_backs {q : Ptr} {k : Nat} (h : heap.Backs q k)
    (hne : ∀ p, b.owner = true → b.data = some p → q.block ≠ p.block)
    : (b.destroy heap).Backs q k := by
  unfold destroy
  split
  . next howner =>
    unfold Heap.deleteBytes
    split
    . exact h
    . next p hp =>
      apply h.congr
      apply Memory.free_blocks heap (hne p howner hp)
  . exact h

theorem blocks_of_destroy {q : Nat} {bs : List Byte} (h : (b.destroy heap).blocks q = some bs)
    : heap.blocks q = some bs := by
  unfold destroy Heap.deleteBytes at h
  split at h
  . split at h
    . exact h
    . unfold Memory.free at h
      dsimp only at h
      split at h
      . simp at h
      . exact h
  . exact h

theorem next_destroy (heap : Heap) (b : Buffer) : (b.destroy heap).next = heap.next := by
  unfold destroy Heap.deleteBytes
  split
  . split
    . rfl
    . rfl
  . rfl

end Destroy

namespace World

variable {n : Nat} {w w' : World} {a : ArrayWorld} {v u : Nat} {b other : Buffer} {p : Ptr}
  {o : Out} {heap' : Heap}

theorem Refines.of_some (h : w.Refines n a) (hb : w.buffers v = some b)
    : a.windows v = some b.window := by
  rw [h.windows v, hb]
  rfl

theorem Refines.of_none (h : w.Refines n a) (hb : w.buffers v = none) : a.windows v = none := by
  rw [h.windows v, hb]
  rfl

theorem Refines.place (h : w.Refines n a) {r : Option Buffer} (hok : ∀ b, r = some b → b.Ok n w.heap)
    (hapart : ∀ b p u c q, r = some b → b.owner = true → b.data = some p → u ≠ v →
      w.buffers u = some c → c.owner = true → c.data = some q → p.block ≠ q.block)
    : (w.set w.heap v r).Refines n
        { a with windows := Function.update a.windows v (r.map window) } := by
  apply h.update (Nat.le_refl _) hok hapart
  . intro u c q k _ _ _ _ hbacks
    exact hbacks
  . exact h.arrays
  . exact h.fresh

theorem Refines.resized (h : w.Refines n a) (hb : w.buffers v = some b) {k : SizeT}
    (hk : k.toNat ≤ b.capacity.toNat)
    : (w.set w.heap v (some (b.withSize k hk))).Refines n
        (a.place v (b.withSize k hk).window) := by
  apply h.place
  . intro c hc
    cases hc
    apply (h.inv.ok v b hb).withSize
  . intro c p u d q hc ho hp hu hd hod hq
    cases hc
    apply h.inv.apart v u b d p q hb hd hu.symm ho hod hp hq

theorem Refines.put (h : w.Refines n a) (hb : w.buffers v = some b) (hp : b.data = some p)
    (hbacks : w.heap.Backs p b.capacity.toNat) {k : SizeT} (hk : k.toNat ≤ b.capacity.toNat)
    {start : Nat} {bs : List Byte} (hsize : k.toNat = start + bs.length)
    (hle : start + bs.length ≤ b.capacity.toNat)
    : (w.set (w.heap.store (p.add start) bs) v (some (b.withSize k hk))).Refines n
        (a.put v ⟨p.block, p.offset, b.capacity.toNat, b.size.toNat, b.size_le⟩ start bs hle) := by
  have hwindow : (b.withSize k hk).window
      = some ⟨p.block, p.offset, b.capacity.toNat, start + bs.length, hle⟩ := by
    have hdata : (b.withSize k hk).data = some p := hp
    rw [window_of_data hdata]
    simp [hsize]
  have hkeeps : ∀ q j, w.heap.Backs q j → (w.heap.store (p.add start) bs).Backs q j := by
    intro q j hq
    apply hbacks.store_of_backs hle hq
  unfold ArrayWorld.put Window.withUsed
  rw [← hwindow, ← Option.map_some]
  apply h.update
  . apply Nat.le_refl w.heap.next
  . intro c hc
    cases hc
    apply Ok.frame ((h.inv.ok v b hb).withSize hk)
    intro q j _ _ hq
    apply hkeeps q j hq
  . intro c q u d r hc ho hq hu hd hod hr
    cases hc
    apply h.inv.apart v u b d q r hb hd hu.symm ho hod hq hr
  . intro u c q j _ _ _ _ hq
    apply hkeeps q j hq
  . intro q ds hds
    unfold Memory.store Ptr.add at hds
    dsimp only at hds ⊢
    by_cases heq : q = p.block
    . rw [if_pos heq, heq, Option.map_eq_some_iff] at hds
      rcases hds with ⟨cs, hcs, rfl⟩
      rw [heq, Function.update_self, h.arrays _ _ hcs]
      rfl
    . rw [if_neg heq] at hds
      rw [Function.update_of_ne heq]
      apply h.arrays q ds hds
  . intro q hq
    have hlt := hbacks.block_lt
    have hq : w.heap.next ≤ q := hq
    dsimp only
    rw [Function.update_of_ne (by omega)]
    apply h.fresh q hq

theorem Refines.release (h : w.Refines n a) (hb : w.buffers v = some b) {r : Option Buffer}
    (hok : ∀ c, r = some c → c.Ok n w.heap)
    (hapart : ∀ c p u d q, r = some c → c.owner = true → c.data = some p → w.buffers u = some d →
      d.owner = true → d.data = some q → p.block ≠ q.block)
    : (w.set (b.destroy w.heap) v r).Refines n
        { a with windows := Function.update a.windows v (r.map window) } := by
  have hown := (h.inv.ok v b hb).own
  apply h.update
  . rw [next_destroy]
  . intro c hc
    apply (hok c hc).frame
    intro q k hq hkept hbacks
    apply destroy_backs hbacks
    intro p howner hp
    cases hkept with
    | inl ho => apply hapart c q v b p hc ho hq hb howner hp
    | inr hlt =>
      have := hown p hp howner
      omega
  . intro c p u d q hc ho hp _ hd hod hq
    apply hapart c p u d q hc ho hp hd hod hq
  . intro u c q k hu hc hq hkept hbacks
    apply destroy_backs hbacks
    intro p howner hp
    cases hkept with
    | inl ho => apply h.inv.apart u v c b q p hc hb hu ho howner hq hp
    | inr hlt =>
      have := hown p hp howner
      omega
  . intro q bs hbs
    apply h.arrays q bs (blocks_of_destroy hbs)
  . intro q hq
    rw [next_destroy] at hq
    apply h.fresh q hq

theorem Refines.allocate (h : w.Refines n a) {k : SizeT} {bytes : List Byte}
    (hlength : bytes.length = k.toNat) (hmax : k.toNat ≤ ptrdiffMax)
    {hwf : WellFormed (some ⟨w.heap.next, 0⟩) k 0}
    : (w.set (w.heap.alloc bytes).2 v (some ⟨some ⟨w.heap.next, 0⟩, k, true, 0, hwf⟩)).Refines n
        (a.allocate v w.heap.next bytes) := by
  have hwindow : (⟨some ⟨w.heap.next, 0⟩, k, true, 0, hwf⟩ : Buffer).window
      = some ⟨w.heap.next, 0, bytes.length, 0, Nat.zero_le _⟩ := by
    simp [window, hlength]
  unfold ArrayWorld.allocate
  rw [← hwindow]
  apply h.update
  . apply Nat.le_succ _
  . intro c hc
    cases hc
    constructor
    . exact hmax
    . intro q hq _
      cases hq
      dsimp only
      rw [← hlength]
      apply Memory.alloc_backs
    . intro q hq _
      cases hq
      exact h.inv.next
  . intro c q u d r hc _ hq _ hd hod hr
    cases hc
    cases hq
    have hlt := ((h.inv.ok u d hd).live r hr (.inl hod)).block_lt
    dsimp only
    omega
  . intro u c q j _ _ _ _ hq
    have hlt := hq.block_lt
    apply hq.congr
    apply Memory.alloc_blocks _ _ hlt
  . intro q ds hds
    by_cases heq : q = w.heap.next
    . simp only [Memory.alloc, heq, ↓reduceIte] at hds
      rw [heq, Function.update_self]
      exact hds
    . simp only [Memory.alloc, heq, ↓reduceIte] at hds
      rw [Function.update_of_ne heq]
      apply h.arrays q ds hds
  . intro q hq
    have hq : w.heap.next + 1 ≤ q := hq
    rw [Function.update_of_ne (by omega)]
    apply h.fresh q (by omega)

theorem Refines.moved (h : w.Refines n a) (u : Nat)
    : (w.set w.heap u (some movedFrom)).Refines n (a.place u none) := by
  apply h.place
  . intro c hc
    cases hc
    apply Ok.of_null _ rfl
    apply Nat.zero_le _
  . intro c p i d q hc ho
    cases hc
    simp [movedFrom] at ho

theorem apart_of_moved (h : w.Refines n a) (hu : w.buffers u = some other) {i : Nat} {d : Buffer}
    {q : Ptr} (hd : (w.set w.heap u (some movedFrom)).buffers i = some d) (hod : d.owner = true)
    (hq : d.data = some q) (ho : other.owner = true) (hp : other.data = some p)
    : p.block ≠ q.block := by
  unfold set at hd
  dsimp only at hd
  by_cases hi : i = u
  . rw [hi, Function.update_self] at hd
    cases hd
    simp [movedFrom] at hod
  . rw [Function.update_of_ne hi] at hd
    apply h.inv.apart u i other d p q hu hd (Ne.symm hi) ho hod hp hq

theorem put_refines (h : w.Refines n a) {op : Op} {start : Buffer → Nat} {start' : Window → Nat}
    {bs : List Byte} (hput : op.put? = some (v, start, bs))
    (hstart : ∀ (b : Buffer) x, b.window = some x → start' x = start b)
    (hstep : w.step op = some (w', o))
    : ∃ a', a.Puts v start' bs o a' ∧ w'.Refines n a' := by
  rcases h.inv.step_put hput hstep with ⟨b, result, hb, hlive, hputs, rfl, rfl⟩
  have hwindow := h.of_some hb
  rcases hputs with ⟨p, k, hk, hp, hsize, rfl⟩ | ⟨hnot, rfl⟩
  . rw [window_of_data hp] at hwindow
    rw [← hstart b _ (window_of_data hp)] at hsize ⊢
    have hle : start' _ + bs.length ≤ b.capacity.toNat := hsize ▸ hk
    exact ⟨_, .inl ⟨_, hle, hwindow, rfl, rfl⟩, h.put hb hp (hlive.backs hp) hk hsize hle⟩
  . rw [set_self hb]
    refine ⟨a, .inr ⟨?_, rfl, rfl⟩, h⟩
    cases hp : b.data with
    | none =>
      left
      rw [hwindow, window_of_null hp]
    | some p =>
      right
      rw [hp] at hnot
      rw [window_of_data hp] at hwindow
      refine ⟨_, hwindow, ?_⟩
      rw [hstart b _ (window_of_data hp)]
      simpa using hnot

theorem resize_refines (h : w.Refines n a) {k : SizeT} (hstep : w.step (.resize v k) = some (w', o))
    : ∃ a', a.Resizes v k.toNat o a' ∧ w'.Refines n a' := by
  rcases step_resize hstep with ⟨b, hb, ⟨hk, rfl, rfl⟩ | ⟨hlt, rfl, rfl⟩⟩
  . have hwindow := h.of_some hb
    refine ⟨_, ?_, h.resized hb hk⟩
    rcases Option.eq_none_or_eq_some b.data with hp | ⟨p, hp⟩
    . have hzero := b.capacity_of_null hp
      have hdata : (b.withSize k hk).data = none := hp
      have hk0 : k.toNat = 0 := by omega
      rw [window_of_null hp] at hwindow
      rw [window_of_null hdata, hk0]
      refine .inr (.inl ⟨hwindow, rfl, ?_⟩)
      unfold ArrayWorld.place
      rw [← hwindow, Function.update_eq_self]
    . have hdata : (b.withSize k hk).data = some p := hp
      rw [window_of_data hp] at hwindow
      rw [window_of_data hdata]
      exact .inl ⟨_, hk, hwindow, rfl, rfl⟩
  . have hwindow := h.of_some hb
    refine ⟨a, ?_, h⟩
    rcases Option.eq_none_or_eq_some b.data with hp | ⟨p, hp⟩
    . have hne : (k.toNat == 0) = false := by
        rw [beq_eq_false_iff_ne]
        omega
      rw [window_of_null hp] at hwindow
      refine .inr (.inl ⟨hwindow, ?_, rfl⟩)
      rw [hne]
    . rw [window_of_data hp] at hwindow
      exact .inr (.inr ⟨_, hwindow, hlt, rfl, rfl⟩)

theorem ofCapacity_refines (h : w.Refines n a) {k : SizeT} {garbage : Option (Nat → Byte)}
    (hstep : w.step (.ofCapacity v k garbage) = some (w', o))
    : ∃ a', a.Step (.ofCapacity v k garbage) o a' ∧ w'.Refines n a' := by
  unfold step construct at hstep
  dsimp only at hstep
  split at hstep
  . simp at hstep
  . next hb =>
    cases hstep
    rcases ofCapacity_eq w.heap k garbage with ⟨hyes, bytes, hwf, hlength, heq⟩ | ⟨hno, hwf, heq⟩
    . rw [heq]
      refine ⟨a.allocate v w.heap.next bytes,
        ⟨h.of_none hb, .inl ⟨hyes, rfl, _, _, h.fresh _ (Nat.le_refl _), hlength, rfl⟩⟩, ?_⟩
      apply h.allocate hlength hyes.2.2
    . rw [heq]
      refine ⟨a.place v none, ⟨h.of_none hb, .inr ⟨hno, rfl, rfl⟩⟩, ?_⟩
      apply h.place
      . intro c hc
        cases hc
        apply Ok.of_null _ rfl
        apply Nat.zero_le _
      . intro c q u d r hc _ hq
        cases hc
        simp at hq

theorem ofExternal_refines (h : w.Refines n a) {external : ByteSpan}
    (hstep : w.step (.ofExternal v external) = some (w', o))
    : ∃ a', a.Step (.ofExternal v external) o a' ∧ w'.Refines n a' := by
  unfold step construct at hstep
  dsimp only at hstep
  split at hstep
  . next hprovided =>
    split at hstep
    . simp at hstep
    . next hb =>
      cases hstep
      refine ⟨a.place v (ArrayWorld.external external), ⟨h.of_none hb, ?_, rfl⟩, ?_⟩
      . rw [isValid_eq, ofExternal_window]
      . rw [← ofExternal_window]
        apply h.place
        . intro c hc
          cases hc
          apply ofExternal_ok hprovided
        . intro c q u d r hc ho
          cases hc
          simp [ofExternal] at ho
  . simp at hstep

theorem moveConstruct_refines (h : w.Refines n a)
    (hstep : w.step (.moveConstruct v u) = some (w', o))
    : ∃ a', a.Step (.moveConstruct v u) o a' ∧ w'.Refines n a' := by
  unfold step at hstep
  dsimp only at hstep
  split at hstep
  . next other hv hu =>
    cases hstep
    refine ⟨_, ⟨_, h.of_none hv, h.of_some hu, rfl, rfl⟩, ?_⟩
    apply (h.moved u).place
    . intro c hc
      cases hc
      apply h.inv.ok u other hu
    . intro c p i d q hc ho hp _ hd hod hq
      cases hc
      apply apart_of_moved h hu hd hod hq ho hp
  . simp at hstep

theorem moveAssign_refines (h : w.Refines n a) (hstep : w.step (.moveAssign v u) = some (w', o))
    : ∃ a', a.Step (.moveAssign v u) o a' ∧ w'.Refines n a' := by
  unfold step at hstep
  dsimp only at hstep
  split at hstep
  . next b other hv hu =>
    split at hstep
    . next heq =>
      cases hstep
      refine ⟨a, ⟨_, ⟨_, h.of_some hv⟩, h.of_some hu, rfl, ?_⟩, h⟩
      rw [if_pos heq]
    . next hne =>
      cases hstep
      refine ⟨_, ⟨_, ⟨_, h.of_some hv⟩, h.of_some hu, rfl, rfl⟩, ?_⟩
      have hb : (w.set w.heap u (some movedFrom)).buffers v = some b := by
        unfold set
        dsimp only
        rw [Function.update_of_ne hne]
        exact hv
      rw [if_neg hne]
      apply (h.moved u).release hb
      . intro c hc
        cases hc
        apply h.inv.ok u other hu
      . intro c p i d q hc ho hp hd hod hq
        cases hc
        apply apart_of_moved h hu hd hod hq ho hp
  . simp at hstep

theorem step_refines (h : w.Refines n a) {op : Op} (hstep : w.step op = some (w', o))
    : ∃ a', a.Step op o a' ∧ w'.Refines n a' := by
  have hused : ∀ (b : Buffer) x, b.window = some x → x.used = b.size.toNat := by
    intro b x hx
    unfold window at hx
    split at hx
    . simp at hx
    . cases hx
      rfl
  cases op with
  | ofCapacity v capacity garbage => apply ofCapacity_refines h hstep
  | ofExternal v external => apply ofExternal_refines h hstep
  | destroy v =>
    unfold step at hstep
    dsimp only at hstep
    split at hstep
    . simp at hstep
    . next b hb =>
      cases hstep
      refine ⟨_, ⟨⟨_, h.of_some hb⟩, rfl, rfl⟩, ?_⟩
      apply h.release hb
      . simp
      . simp
  | assign v source => apply put_refines h rfl (fun _ _ _ => rfl) hstep
  | append v source => apply put_refines h rfl hused hstep
  | pushBack v byte => apply put_refines h rfl hused hstep
  | resize v k => apply resize_refines h hstep
  | clean v =>
    unfold step at hstep
    dsimp only at hstep
    split at hstep
    . simp at hstep
    . next b hb =>
      cases hstep
      have hzero : (0 : SizeT).toNat ≤ b.capacity.toNat := Nat.zero_le _
      have hclean := h.resized hb hzero
      have hwindow : (b.withSize 0 hzero).window
          = b.window.map (·.withUsed 0 (Nat.zero_le _)) := by
        unfold window
        rcases Option.eq_none_or_eq_some b.data with hp | ⟨p, hp⟩
        . simp [hp]
        . simp [hp, Window.withUsed]
      rw [hwindow] at hclean
      exact ⟨_, ⟨_, h.of_some hb, rfl, rfl⟩, hclean⟩
  | moveConstruct v u => apply moveConstruct_refines h hstep
  | moveAssign v u => apply moveAssign_refines h hstep

theorem run_refines {heap : Heap} {trace : List (Op × Out)}
    (hrun : Transition.Run (Transition.ofStep step) (init heap) trace w)
    : ∃ a, Transition.Run ArrayWorld.Step (.init heap.blocks) trace a
        ∧ w.Refines heap.next a := by
  apply hrun.simulate (.init heap)
  intro w a op o w' href hstep
  apply step_refines href hstep

end World

end Buffer

end Sfap
