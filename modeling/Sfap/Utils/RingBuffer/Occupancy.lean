import Sfap.Lib.Transition
import Sfap.Utils.RingBuffer.Queue

/-!
This module contains a ring buffer whose two sides mix the single byte and the batched interface
without any order, so that a `put` may fall between a `prepareWrite` and its `commitWrite`.
-/

namespace Sfap

namespace RingBuffer

inductive MixedOp where
  | put (c : Byte)
  | prepareWrite (n : SizeT)
  | writeView (i : Nat) (c : Byte)
  | commitWrite (k : SizeT)
  | pop
  | prepareRead (n : SizeT)
  | commitRead (k : SizeT)

structure Mixed where
  rb : RingBuffer
  -- `view_size` of the last `prepare` of each side
  lastW : SizeT
  lastR : SizeT
  -- the slots of the views that the producer has not committed yet
  writing : List Nat
  -- how far `head_` and `tail_` have gone, without the wrap
  produced : Nat
  consumed : Nat
  overwrote : Bool

namespace Mixed

def fresh (rb : RingBuffer) : Mixed := ⟨rb, 0, 0, [], 0, 0, false⟩

def step (s : Mixed) (op : MixedOp) : Option (Mixed × Out) :=
  match op with
  | .put c =>
    let (ok, rb) := s.rb.put c
    let slot := s.rb.head.toNat % s.rb.capacity.toNat
    some ({
      s with
      rb := rb
      produced := s.produced + ok.toNat
      overwrote := s.overwrote || (ok && decide (slot ∈ s.rb.window))
    }, .flag ok)
  | .prepareWrite n =>
    let (view, rb) := s.rb.prepareWrite n
    some ({ s with rb := rb, lastW := view.size, writing := s.writing ++ view.slots },
      .count view.size.toNat)
  | .writeView i c =>
    if h : i < s.writing.length then
      let slot := s.writing[i]
      some ({
        s with
        rb := s.rb.storeByte slot c
        overwrote := s.overwrote || decide (slot ∈ s.rb.window)
      }, .done)
    else
      none
  | .commitWrite k =>
    -- the documented precondition
    if k ≤ s.lastW then
      let (can, rb) := s.rb.commitWrite k
      some ({ s with rb := rb, writing := [], produced := s.produced + can.toNat },
        .count can.toNat)
    else
      none
  | .pop =>
    let (c, rb) := s.rb.pop
    some ({ s with rb := rb, consumed := s.consumed + c.isSome.toNat }, .byte c)
  | .prepareRead n =>
    let (view, rb) := s.rb.prepareRead n
    some ({ s with rb := rb, lastR := view.size }, .count view.size.toNat)
  | .commitRead k =>
    if k ≤ s.lastR then
      let (can, rb) := s.rb.commitRead k
      some ({ s with rb := rb, consumed := s.consumed + can.toNat }, .count can.toNat)
    else
      none

structure InRange (s : Mixed) : Prop where
  consumed_le : s.consumed ≤ s.produced
  produced_le : s.produced ≤ s.consumed + s.rb.capacity.toNat
  size_le : s.rb.size.toNat ≤ s.rb.capacity.toNat
  free_eq : s.rb.free.toNat = s.rb.capacity.toNat - s.rb.size.toNat
  intact : s.overwrote = false

/--
What an operation takes from the pending counter is still there to be taken, and what is written
through a view has not been published.
-/
def Fits (s : Mixed) : MixedOp → Prop
  | .commitWrite k => min k.toNat s.rb.pendingW.toNat ≤ s.rb.free.toNat
  | .commitRead k => min k.toNat s.rb.pendingR.toNat ≤ s.rb.size.toNat
  | .writeView i _ =>
    match s.writing[i]? with
    | none => True
    | some slot => slot ∉ s.rb.window
  | _ => True

instance (s : Mixed) (op : MixedOp) : Decidable (s.Fits op) := by
  unfold Fits
  repeat' split
  all_goals infer_instance

structure Linked (s : Mixed) : Prop where
  head_eq : s.rb.head = .ofNat s.produced
  tail_eq : s.rb.tail = .ofNat s.consumed

variable {s s' : Mixed} {o : Out}

theorem Linked.size_eq (hlink : s.Linked) (hle : s.consumed ≤ s.produced)
    (hlt : s.produced ≤ s.consumed + s.rb.capacity.toNat)
    : s.rb.size.toNat = s.produced - s.consumed := by
  have := UInt64.toNat_lt s.rb.capacity
  unfold size
  rw [hlink.head_eq, hlink.tail_eq]
  apply Word.distance_ofNat
  . exact hle
  . omega

theorem Linked.inRange_iff (hlink : s.Linked)
    : s.InRange
        ↔
      s.consumed ≤ s.produced ∧ s.produced ≤ s.consumed + s.rb.capacity.toNat
        ∧ s.overwrote = false := by
  constructor
  . intro h
    exact ⟨h.consumed_le, h.produced_le, h.intact⟩
  . intro h
    have hsize := hlink.size_eq h.1 h.2.1
    have hle : s.rb.size.toNat ≤ s.rb.capacity.toNat := by omega
    exact ⟨h.1, h.2.1, hle, s.rb.toNat_free hle, h.2.2⟩

theorem Linked.step (hlink : s.Linked) {op : MixedOp} (h : s.step op = some (s', o))
    : s'.Linked ∧ s'.rb.capacity = s.rb.capacity := by
  rcases hlink with ⟨hhead, htail⟩
  cases op with
  | put c =>
    simp only [Mixed.step, Option.some.injEq, Prod.mk.injEq] at h
    rcases h with ⟨rfl, _⟩
    refine ⟨⟨?_, ?_⟩, by simp⟩
    . rw [head_put, hhead, UInt64.ofNat_add]
    . simpa using htail
  | prepareWrite n =>
    simp only [Mixed.step, prepareWrite_snd, Option.some.injEq, Prod.mk.injEq] at h
    rcases h with ⟨rfl, _⟩
    exact ⟨⟨hhead, htail⟩, rfl⟩
  | writeView i c =>
    simp only [Mixed.step] at h
    split at h
    . simp only [Option.some.injEq, Prod.mk.injEq] at h
      rcases h with ⟨rfl, _⟩
      exact ⟨⟨hhead, htail⟩, rfl⟩
    . simp at h
  | commitWrite k =>
    simp only [Mixed.step, commitWrite_eq] at h
    split at h
    . simp only [Option.some.injEq, Prod.mk.injEq] at h
      rcases h with ⟨rfl, _⟩
      refine ⟨⟨?_, htail⟩, rfl⟩
      rw [head_producer, hhead, UInt64.ofNat_add, UInt64.ofNat_toNat]
    . simp at h
  | pop =>
    simp only [Mixed.step, Option.some.injEq, Prod.mk.injEq] at h
    rcases h with ⟨rfl, _⟩
    refine ⟨⟨?_, ?_⟩, by simp⟩
    . simpa using hhead
    . rw [tail_pop, htail, UInt64.ofNat_add]
  | prepareRead n =>
    simp only [Mixed.step, prepareRead_snd, Option.some.injEq, Prod.mk.injEq] at h
    rcases h with ⟨rfl, _⟩
    exact ⟨⟨hhead, htail⟩, rfl⟩
  | commitRead k =>
    simp only [Mixed.step, commitRead_eq] at h
    split at h
    . simp only [Option.some.injEq, Prod.mk.injEq] at h
      rcases h with ⟨rfl, _⟩
      refine ⟨⟨hhead, ?_⟩, rfl⟩
      rw [tail_consumer, htail, UInt64.ofNat_add, UInt64.ofNat_toNat]
    . simp at h

theorem inRange_step (hlink : s.Linked) (hrange : s.InRange) {op : MixedOp}
    (h : s.step op = some (s', o))
    : s'.InRange ↔ s.Fits op := by
  have hlink' := hlink.step h
  have hsize := hlink.size_eq hrange.consumed_le hrange.produced_le
  rcases hrange with ⟨hle, hcap, hsize_le, hfree, hintact⟩
  rw [hlink'.1.inRange_iff, hlink'.2]
  cases op with
  | put c =>
    simp only [Mixed.step, Option.some.injEq, Prod.mk.injEq] at h
    rcases h with ⟨rfl, _⟩
    rcases Nat.lt_or_eq_of_le hsize_le with hlt | hfull
    . have hslot := s.rb.head_notMem hlt
      simp only [Fits, iff_true, s.rb.put_eq c hlt, hintact, window, hslot, decide_false,
        Bool.and_false, Bool.or_false, and_true, Bool.toNat_true]
      omega
    . simp [Fits, s.rb.put_full c hfull, hintact, hle, hcap]
  | prepareWrite n =>
    simp only [Mixed.step, Option.some.injEq, Prod.mk.injEq] at h
    rcases h with ⟨rfl, _⟩
    simp only [Fits, iff_true, hintact, and_true]
    omega
  | writeView i c =>
    simp only [Mixed.step] at h
    split at h
    . next hi =>
      simp only [Option.some.injEq, Prod.mk.injEq] at h
      rcases h with ⟨rfl, _⟩
      simp only [Fits, List.getElem?_eq_getElem hi, hintact]
      simp [hle, hcap]
    . simp at h
  | commitWrite k =>
    simp only [Mixed.step, commitWrite_eq] at h
    split at h
    . simp only [Option.some.injEq, Prod.mk.injEq] at h
      rcases h with ⟨rfl, _⟩
      simp only [Fits, Word.toNat_min, hintact, and_true]
      omega
    . simp at h
  | pop =>
    simp only [Mixed.step, Option.some.injEq, Prod.mk.injEq] at h
    rcases h with ⟨rfl, _⟩
    rcases Nat.eq_zero_or_pos s.rb.size.toNat with hempty | hpos
    . simp [Fits, s.rb.pop_empty hempty, hintact, hle, hcap]
    . have hv : s.rb.isValid = true := by
        rw [isValid_iff]
        omega
      simp only [Fits, iff_true, s.rb.pop_eq hv hpos, hintact, and_true, Option.isSome_some,
        Bool.toNat_true]
      omega
  | prepareRead n =>
    simp only [Mixed.step, Option.some.injEq, Prod.mk.injEq] at h
    rcases h with ⟨rfl, _⟩
    simp only [Fits, iff_true, hintact, and_true]
    omega
  | commitRead k =>
    simp only [Mixed.step, commitRead_eq] at h
    split at h
    . simp only [Option.some.injEq, Prod.mk.injEq] at h
      rcases h with ⟨rfl, _⟩
      simp only [Fits, Word.toNat_min, hintact, and_true]
      omega
    . simp at h

theorem Linked.fresh {rb : RingBuffer} (hfresh : rb.Fresh)
    : (fresh rb).Linked ∧ (fresh rb).InRange := by
  have hlink : (Mixed.fresh rb).Linked := ⟨hfresh.counters.1, hfresh.counters.2.1⟩
  refine ⟨hlink, hlink.inRange_iff.mpr ?_⟩
  exact ⟨Nat.le_refl 0, Nat.zero_le _, rfl⟩

end Mixed

/--
The runs that stay in range are the runs in which every operation fits. The failing ones commit
bytes whose room a `put` has used up (or that a `pop` has consumed), or write through a view that a
`put` has overtaken.
-/
theorem occupancy_in_range_iff {rb : RingBuffer} (hfresh : rb.Fresh) (trace : List (MixedOp × Out))
    (s : Mixed)
    : (Mixed.fresh rb).InRange
        ∧
      (Transition.Run (Transition.ensure Mixed.InRange (Transition.ofStep Mixed.step))
          (.fresh rb) trace s
        ↔
        Transition.Run (Transition.restrict Mixed.Fits (Transition.ofStep Mixed.step))
          (.fresh rb) trace s) := by
  have hinit := Mixed.Linked.fresh hfresh
  refine ⟨hinit.2, ?_⟩
  apply Transition.Run.ensure_iff_restrict hinit
  . intro s₁ op o s₂ hlink hstep
    exact (hlink.step hstep).1
  . intro s₁ op o s₂ hlink hrange hstep
    apply Mixed.inRange_step hlink hrange hstep

theorem occupancy_in_range_put_between
    : let rb := ofSize 8 (some (.replicate 8 0))
      let ops : List MixedOp := [.prepareWrite 4, .put 1, .commitWrite 4]
      ∃ s, Transition.Run (Transition.ensure Mixed.InRange (Transition.ofStep Mixed.step))
          (.fresh rb) (ops.zip [.count 4, .flag true, .count 4]) s
        ∧ s.rb.size = 5 := by
  intro rb ops
  have hexec : ((Transition.exec (Transition.guarded Mixed.Fits Mixed.step) (.fresh rb) ops).map
      fun r => (r.2, r.1.rb.size)) = some ([.count 4, .flag true, .count 4], 5) := by decide
  rcases Option.map_eq_some_iff.mp hexec with ⟨⟨s, outs⟩, hexec, heq⟩
  simp only [Prod.mk.injEq] at heq
  rcases heq with ⟨rfl, hsize⟩
  have hrun := Transition.run_restrict_of_exec hexec
  exact ⟨s, (occupancy_in_range_iff (.ofSize 8 _) _ s).2.mpr hrun, hsize⟩

theorem occupancy_exceeds_capacity
    : ¬ ∀ (rb : RingBuffer) (trace : List (MixedOp × Out)) (s : Mixed), rb.Fresh →
        rb.isValid = true → Transition.Run (Transition.ofStep Mixed.step) (.fresh rb) trace s →
        s.InRange := by
  intro h
  have hexec : ((Transition.exec Mixed.step (.fresh (ofSize 8 (some (.replicate 8 0))))
        [.prepareWrite 8, .put 1, .commitWrite 8]).map
        fun r => (r.1.rb.size.toNat, r.1.rb.capacity.toNat)) = some (9, 8) := by decide
  rcases Option.map_eq_some_iff.mp hexec with ⟨⟨s, outs⟩, hexec, heq⟩
  simp only [Prod.mk.injEq] at heq
  have hle := (h _ _ s (.ofSize 8 _) rfl (Transition.run_of_exec hexec)).size_le
  rw [heq.1, heq.2] at hle
  omega

end RingBuffer

end Sfap
