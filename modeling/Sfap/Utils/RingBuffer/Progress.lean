import Sfap.Utils.RingBuffer.Spsc

/-!
This module contains the proof that neither side of a ring buffer ever waits for the other: an operation ends
after a fixed number of its own steps.
-/

namespace Sfap

namespace RingBuffer

open Transition (Run ofStep)

def ProducerPc.remaining : ProducerPc → Nat
  | .idle => 0
  | .putTail _ => 4
  | .putHead _ _ => 3
  | .putByte _ _ => 2
  | .putStore _ _ => 1
  | .prepareTail _ => 2
  | .prepareHead _ _ => 1
  | .holding _ => 0
  | .commitHead _ => 2
  | .commitStore _ _ => 1

def ConsumerPc.remaining : ConsumerPc → Nat
  | .idle => 0
  | .popHead => 4
  | .popTail _ => 3
  | .popByte _ => 2
  | .popStore _ _ => 1
  | .prepareHead _ => 2
  | .prepareTail _ _ => 1
  | .holding _ => 0
  | .commitTail _ _ => 2
  | .commitStore _ _ _ => 1

def Spsc.remaining (s : Spsc) : Party → Nat
  | .producer => s.producer.remaining
  | .consumer => s.consumer.remaining

def Party.next : Party → Act
  | .producer => .produce
  | .consumer => .consume

def Act.steps : Act → Nat
  | .put _ => 4
  | .prepareWrite _ => 2
  | .writeView _ _ => 0
  | .commitWrite _ => 2
  | .produce => 0
  | .pop => 4
  | .prepareRead _ => 2
  | .readView _ => 0
  | .commitRead _ => 2
  | .consume => 0

def Act.isNext (t : Party) : Act → Bool
  | .produce => t == .producer
  | .consume => t == .consumer
  | _ => false

def Act.credit (t : Party) (act : Act) : Nat :=
  if act.party = t then act.steps else 0

namespace Spsc

variable {s s' : Spsc} {acc : Access}

theorem produce_remaining (h : s.produce = some (s', acc))
    : s'.producer.remaining < s.producer.remaining ∧ s'.consumer = s.consumer := by
  unfold Spsc.produce at h
  cases hpc : s.producer with
  | putHead c t =>
    rw [hpc] at h
    dsimp only at h
    split at h
    . cases h
      simp [ProducerPc.remaining]
    . cases h
      simp [ProducerPc.remaining]
  | _ =>
    rw [hpc] at h
    cases h
    try simp [ProducerPc.remaining]

theorem consume_remaining (h : s.consume = some (s', acc))
    : s'.consumer.remaining < s.consumer.remaining ∧ s'.producer = s.producer := by
  unfold Spsc.consume at h
  cases hpc : s.consumer with
  | popTail head =>
    rw [hpc] at h
    dsimp only at h
    split at h
    . cases h
      simp [ConsumerPc.remaining]
    . cases h
      simp [ConsumerPc.remaining]
  | _ =>
    rw [hpc] at h
    cases h
    try simp [ConsumerPc.remaining]

theorem start_remaining {act : Act} (hproduce : act ≠ .produce) (hconsume : act ≠ .consume)
    (h : s.step act = some (s', acc)) (t : Party)
    : s'.remaining t ≤ s.remaining t + act.credit t := by
  cases act with
  | produce => exact absurd rfl hproduce
  | consume => exact absurd rfl hconsume
  | _ =>
    simp only [Spsc.step] at h
    repeat' split at h
    all_goals cases h
    all_goals cases t <;> simp [remaining, ProducerPc.remaining, ConsumerPc.remaining, Act.credit, Act.party, Act.steps]

theorem step_remaining {act : Act} (h : s.step act = some (s', acc)) (t : Party)
    : s'.remaining t + (if act.isNext t then 1 else 0) ≤ s.remaining t + act.credit t := by
  cases act with
  | produce =>
    rcases produce_remaining h with ⟨hlt, hother⟩
    cases t with
    | producer => exact hlt
    | consumer => simp [remaining, hother, Act.isNext, Act.credit, Act.party]
  | consume =>
    rcases consume_remaining h with ⟨hlt, hother⟩
    cases t with
    | producer => simp [remaining, hother, Act.isNext, Act.credit, Act.party]
    | consumer => exact hlt
  | _ =>
    simp only [Act.isNext, Bool.false_eq_true, ↓reduceIte, Nat.add_zero]
    apply start_remaining _ _ h
    . simp
    . simp

theorem produce_enabled (s : Spsc) (h : 0 < s.producer.remaining) : ∃ r, s.produce = some r := by
  unfold Spsc.produce
  cases hpc : s.producer with
  | idle => simp [hpc, ProducerPc.remaining] at h
  | holding view => simp [hpc, ProducerPc.remaining] at h
  | putHead c t =>
    dsimp only
    split
    . exact ⟨_, rfl⟩
    . exact ⟨_, rfl⟩
  | _ => exact ⟨_, rfl⟩

theorem consume_enabled (s : Spsc) (h : 0 < s.consumer.remaining) : ∃ r, s.consume = some r := by
  unfold Spsc.consume
  cases hpc : s.consumer with
  | idle => simp [hpc, ConsumerPc.remaining] at h
  | holding view => simp [hpc, ConsumerPc.remaining] at h
  | popTail head =>
    dsimp only
    split
    . exact ⟨_, rfl⟩
    . exact ⟨_, rfl⟩
  | _ => exact ⟨_, rfl⟩

theorem next_enabled (s : Spsc) (t : Party) (h : 0 < s.remaining t) : ∃ r, s.step t.next = some r := by
  cases t with
  | producer => exact s.produce_enabled h
  | consumer => exact s.consume_enabled h

end Spsc

/--
In every interleaving a side takes no more steps than its operations have been credited with when they began,
four for `put` and `pop` and two for the others, and none of these steps ever waits for the other side.
-/
theorem spsc_wait_free {s s' : Spsc} {trace : List (Act × Access)} (hrun : Run (ofStep Spsc.step) s trace s')
    (t : Party)
    : s'.remaining t + trace.countP (fun r => r.1.isNext t)
          ≤ s.remaining t + (trace.map fun r => r.1.credit t).sum
        ∧
      (0 < s'.remaining t → ∃ s'' acc, s'.step t.next = some (s'', acc) ∧ s''.remaining t < s'.remaining t) := by
  constructor
  . refine hrun.potential (fun s => s.remaining t) (fun act => act.isNext t) (fun act => act.credit t) ?_
    intro s₁ act acc s₂ hstep
    exact Spsc.step_remaining hstep t
  . intro hpos
    rcases s'.next_enabled t hpos with ⟨⟨s'', acc⟩, hnext⟩
    refine ⟨s'', acc, hnext, ?_⟩
    have hle := Spsc.step_remaining hnext t
    cases t with
    | producer => exact hle
    | consumer => exact hle

-- a whole `put`, with a `pop` that has come half its way and can go on
theorem spsc_wait_free_put
    : let acts : List Act := [.put 7, .pop, .produce, .consume, .produce, .produce, .produce]
      ∃ accs s, Run (ofStep Spsc.step) (.fresh (ofSize 2 (some (.replicate 2 0)))) (acts.zip accs) s
        ∧ s.remaining .producer + 4 ≤ 4 ∧ s.remaining .consumer = 3
        ∧ ∃ s' acc, s.step .consume = some (s', acc) ∧ s'.remaining .consumer < 3 := by
  intro acts
  have hexec : (Transition.exec Spsc.step (.fresh (ofSize 2 (some (.replicate 2 0)))) acts).map
      (fun r => (r.2, r.1.remaining .consumer))
      = some ([.none, .none, .none, .none, .none, .wrote 0, .none], 3) := by decide
  rcases Option.map_eq_some_iff.mp hexec with ⟨⟨s, accs⟩, hexec, heq⟩
  simp only [Prod.mk.injEq] at heq
  rcases heq with ⟨rfl, hremaining⟩
  have hrun := Transition.run_of_exec hexec
  have hnext := (spsc_wait_free hrun .consumer).2 (by omega)
  rw [hremaining] at hnext
  exact ⟨_, s, hrun, (spsc_wait_free hrun .producer).1, hremaining, hnext⟩

end RingBuffer

end Sfap
