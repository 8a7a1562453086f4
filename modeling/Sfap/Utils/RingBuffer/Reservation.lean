import Sfap.Utils.RingBuffer.Queue

/-!
This module contains what short commits leave in the pending counters, and how much a `prepare`
still offers because of it.
-/

namespace Sfap

namespace RingBuffer

inductive Side where
  | producer
  | consumer
  deriving DecidableEq

@[simp]
def Op.prepares : Op → Option Side
  | .prepareWrite _ => some .producer
  | .prepareRead _ => some .consumer
  | _ => none

@[simp]
def Op.commits : Op → Option Side
  | .commitWrite _ => some .producer
  | .commitRead _ => some .consumer
  | _ => none

/--
Follows the pairs of one side through a trace: the size of the view that is open, and the bytes that
closed pairs have reserved and not committed.
-/
def leftoverStep (side : Side) (acc : Nat × Nat) (event : Op × Out) : Nat × Nat :=
  match event with
  | (.clean, _) => (0, 0)
  | (op, .count n) =>
    if op.prepares = some side then
      (n, acc.2)
    else if op.commits = some side then
      (0, acc.2 + (acc.1 - n))
    else
      acc
  | _ => acc

def leftover (side : Side) (trace : List (Op × Out)) : Nat × Nat :=
  trace.foldl (leftoverStep side) (0, 0)

def Uncut (n amount pending : Nat) : Prop :=
  n = 0 ∨ amount = 0 ∨ pending = 0 ∨ n + pending ≤ amount

theorem min_sub_eq_min_iff (n amount pending : Nat)
    : min n (amount - pending) = min n amount ↔ Uncut n amount pending := by
  unfold Uncut
  omega

def pending (rb : RingBuffer) : Side → Nat
  | .producer => rb.pendingW.toNat
  | .consumer => rb.pendingR.toNat

namespace Client

variable {s s' : Client} {o : Out}

def viewOf (s : Client) : Side → Option View
  | .producer => s.writing
  | .consumer => s.reading

def openSize (s : Client) (side : Side) : Nat :=
  match s.viewOf side with
  | none => 0
  | some view => view.size.toNat

theorem Inv.offer_prepareWrite (hinv : s.Inv) (n : SizeT)
    : (s.rb.prepareWrite n).1.size.toNat = min n.toNat s.rb.free.toNat
        ↔
      Uncut n.toNat s.rb.free.toNat s.rb.pendingW.toNat := by
  cases hv : s.rb.isValid with
  | true =>
    rw [s.rb.toNat_size_prepareWrite hv]
    apply min_sub_eq_min_iff
  | false =>
    have hzero := s.rb.capacity_null hv
    rw [s.rb.prepareWrite_null hv, s.rb.toNat_free hinv.size_le]
    simp [Uncut, hzero]

theorem Inv.offer_prepareRead (hinv : s.Inv) (n : SizeT)
    : (s.rb.prepareRead n).1.size.toNat = min n.toNat s.rb.size.toNat
        ↔
      Uncut n.toNat s.rb.size.toNat s.rb.pendingR.toNat := by
  cases hv : s.rb.isValid with
  | true =>
    rw [s.rb.toNat_size_prepareRead hv]
    apply min_sub_eq_min_iff
  | false =>
    have hzero : s.rb.size.toNat = 0 := by
      have := s.rb.capacity_null hv
      have := hinv.size_le
      omega
    rw [s.rb.prepareRead_null hv]
    simp [Uncut, hzero]

def Owes (s : Client) (side : Side) (acc : Nat × Nat) : Prop :=
  acc.1 = s.openSize side ∧ s.rb.pending side = acc.1 + acc.2

theorem Owes.prepare {side : Side} {acc : Nat × Nat} (hu : s.Owes side acc) {view : View}
    (hnone : s.viewOf side = none) (hsome : s'.viewOf side = some view)
    (hp : s'.rb.pending side = s.rb.pending side + view.size.toNat)
    : s'.Owes side (view.size.toNat, acc.2) := by
  unfold Owes openSize at hu ⊢
  rw [hnone] at hu
  rw [hsome, hp]
  refine ⟨rfl, ?_⟩
  dsimp at hu ⊢
  omega

theorem Owes.commit {side : Side} {acc : Nat × Nat} (hu : s.Owes side acc) {view : View} {k : Nat}
    (hsome : s.viewOf side = some view) (hnone : s'.viewOf side = none)
    (hk : k ≤ view.size.toNat) (hp : s'.rb.pending side = s.rb.pending side - k)
    : s'.Owes side (0, acc.2 + (acc.1 - k)) := by
  unfold Owes openSize at hu ⊢
  rw [hsome] at hu
  rw [hnone, hp]
  refine ⟨rfl, ?_⟩
  dsimp at hu ⊢
  omega

theorem leftover_step (hinv : s.Inv) {op : Op} (h : s.step op = some (s', o)) (side : Side)
    {acc : Nat × Nat} (hu : s.Owes side acc)
    : s'.Owes side (leftoverStep side acc (op, o)) := by
  cases op with
  | put c =>
    rcases of_step_put h with ⟨_, rfl, rfl⟩
    cases side <;> simpa [Owes, openSize, viewOf, pending, leftoverStep] using hu
  | writeView i c =>
    rcases of_step_writeView h with ⟨_, _, _, rfl, rfl⟩
    cases side <;> simpa [Owes, openSize, viewOf, pending, leftoverStep] using hu
  | prepareWrite n =>
    have hfits := (s.rb.size_prepareWrite_le hinv.size_le n).2.2
    rcases of_step_prepareWrite h with ⟨hw, rfl, rfl⟩
    rw [s.rb.prepareWrite_snd]
    cases side with
    | producer =>
      apply hu.prepare hw rfl
      apply Word.toNat_add_of_lt hfits
    | consumer => simpa [Owes, openSize, viewOf, pending, leftoverStep] using hu
  | commitWrite k =>
    rcases of_step_commitWrite h with ⟨view, hw, hk, rfl, rfl⟩
    rw [s.rb.commitWrite_eq]
    cases side with
    | producer =>
      apply hu.commit hw rfl
      . rw [Word.toNat_min]
        omega
      . apply Word.toNat_sub_of_toNat_le
        rw [Word.toNat_min]
        omega
    | consumer => simpa [Owes, openSize, viewOf, pending, leftoverStep] using hu
  | pop =>
    rcases of_step_pop h with ⟨_, rfl, rfl⟩
    cases side <;> simpa [Owes, openSize, viewOf, pending, leftoverStep] using hu
  | prepareRead n =>
    have hfits := (s.rb.size_prepareRead_le n).2.2
    rcases of_step_prepareRead h with ⟨hr, rfl, rfl⟩
    rw [s.rb.prepareRead_snd]
    cases side with
    | producer => simpa [Owes, openSize, viewOf, pending, leftoverStep] using hu
    | consumer =>
      apply hu.prepare hr rfl
      apply Word.toNat_add_of_lt hfits
  | readView i =>
    rcases of_step_readView h with ⟨_, _, _, rfl, rfl⟩
    simpa [leftoverStep] using hu
  | commitRead k =>
    rcases of_step_commitRead h with ⟨view, hr, hk, rfl, rfl⟩
    rw [s.rb.commitRead_eq]
    cases side with
    | producer => simpa [Owes, openSize, viewOf, pending, leftoverStep] using hu
    | consumer =>
      apply hu.commit hr rfl
      . rw [Word.toNat_min]
        omega
      . apply Word.toNat_sub_of_toNat_le
        rw [Word.toNat_min]
        omega
  | clean =>
    rcases of_step_clean h with ⟨hw, hr, rfl, rfl⟩
    cases side <;> simp [Owes, openSize, viewOf, pending, leftoverStep, clean, hw, hr]

theorem leftover_run {rb : RingBuffer} (hfresh : rb.Fresh) {trace : List (Op × Out)}
    (hrun : Transition.Run (Transition.ofStep step) (fresh rb) trace s) (side : Side)
    : s.Inv ∧ s.Owes side (leftover side trace) := by
  induction hrun with
  | nil =>
    constructor
    . apply Inv.of_size_le
      simp [hfresh.size_eq]
    . cases side <;> simp [Owes, openSize, viewOf, pending, leftover, fresh, hfresh.counters]
  | snoc _ hlast ih =>
    rcases ih with ⟨hinv, hu⟩
    constructor
    . exact (step_refines hinv _ hlast).1
    . unfold leftover
      rw [List.foldl_append]
      apply leftover_step hinv hlast side hu

end Client

/--
A `prepare` that is due offers `min(n, free())` and `min(n, size())` exactly when what earlier short
commits have left pending does not cut the request.
-/
theorem prepare_offers_min_iff {rb : RingBuffer} (hfresh : rb.Fresh) {trace : List (Op × Out)}
    {s : Client} (hrun : Transition.Run (Transition.ofStep Client.step) (.fresh rb) trace s)
    (n : SizeT)
    : (s.writing = none →
        ((s.rb.prepareWrite n).1.size.toNat = min n.toNat s.rb.free.toNat
          ↔ Uncut n.toNat s.rb.free.toNat (leftover .producer trace).2)
        ∧ s.rb.pendingW.toNat = (leftover .producer trace).2)
        ∧
      (s.reading = none →
        ((s.rb.prepareRead n).1.size.toNat = min n.toNat s.rb.size.toNat
          ↔ Uncut n.toNat s.rb.size.toNat (leftover .consumer trace).2)
        ∧ s.rb.pendingR.toNat = (leftover .consumer trace).2) := by
  constructor
  . intro hw
    rcases Client.leftover_run hfresh hrun .producer with ⟨hinv, hopen, hp⟩
    have hpending : s.rb.pendingW.toNat = (leftover .producer trace).2 := by
      simp only [Client.openSize, Client.viewOf, hw] at hopen
      simpa [hopen, pending] using hp
    rw [← hpending]
    exact ⟨hinv.offer_prepareWrite n, rfl⟩
  . intro hr
    rcases Client.leftover_run hfresh hrun .consumer with ⟨hinv, hopen, hp⟩
    have hpending : s.rb.pendingR.toNat = (leftover .consumer trace).2 := by
      simp only [Client.openSize, Client.viewOf, hr] at hopen
      simpa [hopen, pending] using hp
    rw [← hpending]
    exact ⟨hinv.offer_prepareRead n, rfl⟩

theorem prepare_offers_min_after_full_commit
    : let ops : List Op := [.prepareWrite 3, .commitWrite 3]
      let rb := ofSize 4 (some (.replicate 4 0))
      ∃ s, Transition.Run (Transition.ofStep Client.step) (.fresh rb)
          (ops.zip [.count 3, .count 3]) s
        ∧ (s.rb.prepareWrite 2).1.size.toNat = min 2 s.rb.free.toNat := by
  intro ops rb
  have hfresh : rb.Fresh := .ofSize 4 (some (.replicate 4 0))
  have hexec : ((Transition.exec Client.step (.fresh rb) ops).map fun r => (r.2, r.1.writing))
      = some ([.count 3, .count 3], none) := by decide
  rcases Option.map_eq_some_iff.mp hexec with ⟨⟨s, outs⟩, hexec, heq⟩
  simp only [Prod.mk.injEq] at heq
  rcases heq with ⟨rfl, hw⟩
  have hrun := Transition.run_of_exec hexec
  refine ⟨s, hrun, ?_⟩
  apply (((prepare_offers_min_iff hfresh hrun 2).1 hw).1).mpr
  right; right; left
  rfl

theorem prepare_cut_by_short_commit
    : ¬ ∀ (rb : RingBuffer) (trace : List (Op × Out)) (s : Client), rb.Fresh →
        Transition.Run (Transition.ofStep Client.step) (.fresh rb) trace s →
        s.writing = none →
        ∀ n : SizeT, (s.rb.prepareWrite n).1.size.toNat = min n.toNat s.rb.free.toNat := by
  intro h
  have hexec : ((Transition.exec Client.step
        (.fresh (ofSize 8 (some (.replicate 8 0)))) [.prepareWrite 6, .commitWrite 4]).map
        fun r => (r.1.writing, (r.1.rb.prepareWrite 8).1.size.toNat, r.1.rb.free.toNat))
      = some (none, 2, 4) := by decide
  rcases Option.map_eq_some_iff.mp hexec with ⟨⟨s, outs⟩, hexec, heq⟩
  simp only [Prod.mk.injEq] at heq
  have hmin := h _ _ s (.ofSize 8 _) (Transition.run_of_exec hexec) heq.1 8
  rw [heq.2.1, heq.2.2] at hmin
  simp at hmin

end RingBuffer

end Sfap
