import Sfap.Net.IOUring.Ring

/-!
This module contains the event loop: the steps of `run` and of `stop` on two threads, with the completions
that arrive meanwhile, and when `run` hears of the `stop`.
-/

namespace Sfap

namespace Net

open IOUring

inductive RunPc where
  | store
  | load
  | waitCqe
  | handleCqe (cqe : InFlight) (result : Int32)
  | cqeSeen
  | returned
  deriving DecidableEq, Repr

inductive StopPc where
  | store
  | getSqe
  | submit
  | returned
  deriving DecidableEq, Repr

/--
The proactor between a thread that executes `run` and one that executes `stop`, with the completions that
`run` has not seen yet.
-/
structure EventLoop where
  proactor : IOUringProactor
  ready : List (InFlight × Int32)
  run : RunPc
  stop : StopPc

namespace EventLoop

open IOUringProactor (Op)

inductive Tick where
  | runStore
  | runLoad
  | runWaitCqe (result : Int32)
  | runHandleCqe
  | runCqeSeen
  | stopStore
  | stopGetSqe (sqe : Option Nat)
  | stopSubmit (result : Int32)
  -- the `i`-th of the entries in flight completes
  | complete (i : Nat) (result : Int32)
  | call (op : Op)

def launch (proactor : IOUringProactor) (ready : List (InFlight × Int32)) : EventLoop :=
  ⟨proactor, ready, .store, .store⟩

def runStep (s : EventLoop) : Tick → Option EventLoop
  | .runStore =>
    match s.run with
    | .store => some { s with proactor := { s.proactor with running := true }, run := .load }
    | _ => none
  | .runLoad =>
    match s.run with
    | .load => some { s with run := if s.proactor.running then .waitCqe else .returned }
    | _ => none
  | .runWaitCqe result =>
    match s.run with
    | .waitCqe =>
      if result < 0 then
        some { s with run := .load }
      else
        match s.ready with
        | [] => none
        | (cqe, result) :: _ => some { s with run := .handleCqe cqe result }
    | _ => none
  | .runHandleCqe =>
    match s.run with
    | .handleCqe cqe result =>
      (s.proactor.handleCqe cqe result).map fun p => { s with proactor := p, run := .cqeSeen }
    | _ => none
  | .runCqeSeen =>
    match s.run with
    | .cqeSeen => some { s with ready := s.ready.tail, run := .load }
    | _ => none
  | _ => none

def stopStep (s : EventLoop) : Tick → Option EventLoop
  | .stopStore =>
    match s.stop with
    | .store => some { s with proactor := { s.proactor with running := false }, stop := .getSqe }
    | _ => none
  | .stopGetSqe sqe =>
    match s.stop with
    | .getSqe =>
      if s.proactor.Offers sqe none then
        match sqe with
        | none => some { s with stop := .returned }
        | some slot =>
          some { s with proactor := (s.proactor.getSqe slot none).prep slot .nop none, stop := .submit }
      else
        none
    | _ => none
  | .stopSubmit result =>
    match s.stop with
    | .submit => some { s with proactor := s.proactor.submit result, stop := .returned }
    | _ => none
  | _ => none

def step (s : EventLoop) (tick : Tick) : Option (EventLoop × Unit) :=
  match tick with
  | .complete i result =>
    match s.proactor.inFlight[i]? with
    | none => none
    | some cqe =>
      let proactor := { s.proactor with inFlight := s.proactor.inFlight.eraseIdx i }
      some ({ s with proactor := proactor, ready := s.ready ++ [(cqe, result)] }, ())
  | .call (.stop ..) => none
  | .call (.handleCqe ..) => none
  | .call op => (s.proactor.step op).map fun (p, _) => ({ s with proactor := p }, ())
  | tick => ((s.runStep tick).or (s.stopStep tick)).map (·, ())

def InLoop (s : EventLoop) : Prop :=
  s.run ≠ .store ∧ s.run ≠ .returned

-- `run` waits, and there is nothing that could wake it
def Stuck (s : EventLoop) : Prop :=
  s.run = .waitCqe ∧ s.ready = [] ∧ s.proactor.inFlight = []

def Lost (s : EventLoop) : Prop :=
  s.stop = .returned ∧ s.InLoop ∧ (s.proactor.running = true ∨ s.Stuck)

/--
`run` has stored its flag before `stop` does, and it is not stuck when `stop` cannot wake it.
-/
def Heard (s : EventLoop) : Tick → Prop
  | .runStore => s.stop = .store
  | .stopGetSqe none => ¬ s.Stuck
  | .stopSubmit result => result < 0 → ¬ s.Stuck
  | _ => True

instance (s : EventLoop) : Decidable s.Stuck :=
  inferInstanceAs (Decidable (_ ∧ _ ∧ _))

instance (s : EventLoop) : Decidable s.InLoop :=
  inferInstanceAs (Decidable (_ ∧ _))

instance (s : EventLoop) : Decidable s.Lost :=
  inferInstanceAs (Decidable (_ ∧ _ ∧ (_ ∨ _)))

instance (s : EventLoop) : (tick : Tick) → Decidable (s.Heard tick)
  | .runStore => inferInstanceAs (Decidable (s.stop = .store))
  | .stopGetSqe none => inferInstanceAs (Decidable (¬ s.Stuck))
  | .stopSubmit result => inferInstanceAs (Decidable (result < 0 → ¬ s.Stuck))
  | .runLoad => .isTrue trivial
  | .runWaitCqe _ => .isTrue trivial
  | .runHandleCqe => .isTrue trivial
  | .runCqeSeen => .isTrue trivial
  | .stopStore => .isTrue trivial
  | .stopGetSqe (some _) => .isTrue trivial
  | .complete .. => .isTrue trivial
  | .call _ => .isTrue trivial

end EventLoop

namespace EventLoop

open Transition

variable {s : EventLoop}

def stopTicks (sqe : Option Nat) (result : Int32) : List Tick :=
  .stopStore :: .stopGetSqe sqe :: if sqe.isSome then [.stopSubmit result] else []

theorem exec_stop (hstop : s.stop = .store) {sqe : Option Nat} (hoffers : s.proactor.Offers sqe none)
    (result : Int32)
    : (exec step s (stopTicks sqe result)).map Prod.fst
        = some { s with proactor := s.proactor.stop sqe result, stop := .returned } := by
  have hoffers : ({ s.proactor with running := false } : IOUringProactor).Offers sqe none := hoffers
  unfold stopTicks IOUringProactor.stop
  cases sqe with
  | none => simp [exec, step, runStep, stopStep, hstop, hoffers]
  | some slot => simp [exec, step, runStep, stopStep, hstop, hoffers]

theorem exec_handleCqe {p : IOUringProactor} {o : Option Outcome} {i : Nat} {result : Int32}
    (hrun : s.run = .waitCqe) (hready : s.ready = [])
    (hstep : s.proactor.step (.handleCqe i result) = some (p, o))
    : exec step s [.complete i result, .runWaitCqe 0, .runHandleCqe, .runCqeSeen]
        = some ({ s with proactor := p, run := .load }, [(), (), (), ()]) := by
  rcases IOUringProactor.handleCqe_eq_some hstep with ⟨cqe, hi, hp⟩
  simp [exec, step, hi, runStep, stopStep, hrun, hready, hp]

end EventLoop

namespace EventLoop

open IOUringProactor (Op Forwards forwards_step forwards_getSqe forwards_submit sameRing_handleCqe)
open Transition

variable {s s' : EventLoop} {tick : Tick} {trace : List (Tick × Unit)}

inductive Stepped (s : EventLoop) : Tick → EventLoop → Prop where
  | complete {i : Nat} {result : Int32} {cqe : InFlight} (hi : s.proactor.inFlight[i]? = some cqe) :
      Stepped s (.complete i result) { s with
        proactor := { s.proactor with inFlight := s.proactor.inFlight.eraseIdx i }
        ready := s.ready ++ [(cqe, result)] }
  | call {op : Op} {p : IOUringProactor} {out : Option Outcome} (hstop : ∀ sqe result, op ≠ .stop sqe result)
      (hcqe : ∀ i result, op ≠ .handleCqe i result) (hp : s.proactor.step op = some (p, out)) :
      Stepped s (.call op) { s with proactor := p }
  | run {tick : Tick} {s' : EventLoop} (hcomplete : ∀ i result, tick ≠ .complete i result)
      (hrun : s.runStep tick = some s') : Stepped s tick s'
  | stop {tick : Tick} {s' : EventLoop} (hcomplete : ∀ i result, tick ≠ .complete i result)
      (hstop : s.stopStep tick = some s') : Stepped s tick s'

theorem stepped {o : Unit} (hstep : s.step tick = some (s', o)) : Stepped s tick s' := by
  unfold EventLoop.step at hstep
  split at hstep
  . split at hstep
    . simp at hstep
    . next hi =>
      cases hstep
      exact .complete hi
  . simp at hstep
  . simp at hstep
  . next op hstop hcqe =>
    rw [Option.map_eq_some_iff] at hstep
    rcases hstep with ⟨⟨p, out⟩, hp, heq⟩
    cases heq
    exact .call hstop hcqe hp
  . next hcomplete _ _ _ =>
    rw [Option.map_eq_some_iff] at hstep
    rcases hstep with ⟨s₁, hor, heq⟩
    cases heq
    rw [Option.or_eq_some_iff] at hor
    rcases hor with hrun | ⟨_, hstop⟩
    . exact .run hcomplete hrun
    . exact .stop hcomplete hstop

/--
Once `stop` has stored its flag it stays that way, and if `run` waits then there is something to wake it:
the entry of `stop`, or what `stop` has found in flight.
-/
structure Inv (s : EventLoop) : Prop where
  running : s.stop ≠ .store → s.proactor.running = false
  submit : s.stop = .submit → s.run = .waitCqe →
    s.proactor.queued ≠ [] ∨ s.proactor.inFlight ≠ [] ∨ s.ready ≠ []
  returned : s.stop = .returned → s.run = .waitCqe → s.proactor.inFlight ≠ [] ∨ s.ready ≠ []

theorem Inv.not_lost (h : Inv s) : ¬ Lost s := by
  rintro ⟨hstop, _, hrunning | ⟨hwait, hready, hinFlight⟩⟩
  . rw [h.running (by rw [hstop]; simp)] at hrunning
    simp at hrunning
  . rcases h.returned hstop hwait with hne | hne
    . apply hne hinFlight
    . apply hne hready

theorem wakes_of_not_stuck (hwake : ¬ s.Stuck) (hrun : s.run = .waitCqe)
    : s.proactor.inFlight ≠ [] ∨ s.ready ≠ [] := by
  by_contra hnone
  rw [not_or, not_ne_iff, not_ne_iff] at hnone
  exact hwake ⟨hrun, hnone.2, hnone.1⟩

theorem Inv.forwards (h : Inv s) {proactor : IOUringProactor} (hforwards : Forwards s.proactor proactor)
    : Inv { s with proactor := proactor } := by
  constructor
  . intro hstop
    rw [← h.running hstop]
    exact hforwards.running
  . intro hstop hrun
    rcases h.submit hstop hrun with hne | hne | hne
    . rcases hforwards.queued hne with hne | hne
      . exact .inl hne
      . exact .inr (.inl hne)
    . exact .inr (.inl (hforwards.inFlight_ne_nil hne))
    . exact .inr (.inr hne)
  . intro hstop hrun
    rcases h.returned hstop hrun with hne | hne
    . exact .inl (hforwards.inFlight_ne_nil hne)
    . exact .inr hne

theorem Inv.awake (h : Inv s) (hstop : s'.stop = s.stop) (hrunning : s'.proactor.running = s.proactor.running)
    (hrun : s'.run ≠ .waitCqe)
    : Inv s' := by
  constructor
  . rw [hstop, hrunning]
    exact h.running
  . intro _ hwait
    exact absurd hwait hrun
  . intro _ hwait
    exact absurd hwait hrun

theorem Inv.runStep (h : Inv s) (hheard : s.Heard tick) (hstep : s.runStep tick = some s') : Inv s' := by
  cases tick with
  | runStore =>
    unfold EventLoop.runStep at hstep
    dsimp only at hstep
    split at hstep
    . cases hstep
      have hstop : s.stop = .store := hheard
      constructor
      . intro hne
        exact absurd hstop hne
      . intro _ hrun
        simp at hrun
      . intro _ hrun
        simp at hrun
    . simp at hstep
  | runLoad =>
    unfold EventLoop.runStep at hstep
    dsimp only at hstep
    split at hstep
    . cases hstep
      by_cases hrunning : s.proactor.running
      . rw [if_pos hrunning]
        -- the flag is still set, so `stop` has done nothing yet
        have hstop : s.stop = .store := by
          by_contra hne
          rw [h.running hne] at hrunning
          simp at hrunning
        constructor
        . exact h.running
        . intro hsubmit
          simp [hstop] at hsubmit
        . intro hreturned
          simp [hstop] at hreturned
      . rw [if_neg hrunning]
        refine h.awake rfl rfl ?_
        simp
    . simp at hstep
  | runWaitCqe result =>
    unfold EventLoop.runStep at hstep
    dsimp only at hstep
    split at hstep
    . split at hstep
      . cases hstep
        refine h.awake rfl rfl ?_
        simp
      . split at hstep
        . simp at hstep
        . cases hstep
          refine h.awake rfl rfl ?_
          simp
    . simp at hstep
  | runHandleCqe =>
    unfold EventLoop.runStep at hstep
    dsimp only at hstep
    split at hstep
    . rw [Option.map_eq_some_iff] at hstep
      rcases hstep with ⟨p, hp, rfl⟩
      refine h.awake rfl (sameRing_handleCqe hp).running ?_
      simp
    . simp at hstep
  | runCqeSeen =>
    unfold EventLoop.runStep at hstep
    dsimp only at hstep
    split at hstep
    . cases hstep
      refine h.awake rfl rfl ?_
      simp
    . simp at hstep
  | _ =>
    unfold EventLoop.runStep at hstep
    simp at hstep

theorem Inv.stopStep (h : Inv s) (hheard : s.Heard tick) (hstep : s.stopStep tick = some s') : Inv s' := by
  cases tick with
  | stopStore =>
    unfold EventLoop.stopStep at hstep
    dsimp only at hstep
    split at hstep
    . cases hstep
      constructor
      . intro _
        rfl
      . intro hsubmit
        simp at hsubmit
      . intro hreturned
        simp at hreturned
    . simp at hstep
  | stopGetSqe sqe =>
    unfold EventLoop.stopStep at hstep
    dsimp only at hstep
    split at hstep
    . next hstop =>
      have hrunning : s.proactor.running = false := by
        apply h.running
        simp [hstop]
      split at hstep
      . split at hstep
        . cases hstep
          constructor
          . intro _
            exact hrunning
          . intro hsubmit
            simp at hsubmit
          . intro _ hrun
            exact wakes_of_not_stuck hheard hrun
        . next slot =>
          cases hstep
          constructor
          . intro _
            exact hrunning
          . intro _ _
            left
            unfold IOUringProactor.prep IOUringProactor.getSqe
            simp
          . intro hreturned
            simp at hreturned
      . simp at hstep
    . simp at hstep
  | stopSubmit result =>
    unfold EventLoop.stopStep at hstep
    dsimp only at hstep
    split at hstep
    . next hstop =>
      cases hstep
      have hrunning : s.proactor.running = false := by
        apply h.running
        simp [hstop]
      have hforwards := forwards_submit s.proactor result
      constructor
      . intro _
        rw [← hrunning]
        exact hforwards.running
      . intro hsubmit
        simp at hsubmit
      . intro _ hrun
        by_cases hresult : result < 0
        . rw [IOUringProactor.submit_fail hresult]
          exact wakes_of_not_stuck (hheard hresult) hrun
        . rcases h.submit hstop hrun with hne | hne | hne
          . left
            rw [IOUringProactor.submit_ok hresult]
            simpa using fun _ => hne
          . exact .inl (hforwards.inFlight_ne_nil hne)
          . exact .inr hne
    . simp at hstep
  | _ =>
    unfold EventLoop.stopStep at hstep
    simp at hstep

theorem Inv.complete (h : Inv s) {i : Nat} {cqe : InFlight} {result : Int32}
    : Inv { s with
        proactor := { s.proactor with inFlight := s.proactor.inFlight.eraseIdx i }
        ready := s.ready ++ [(cqe, result)]
      } := by
  constructor
  . exact h.running
  . intro _ _
    right
    right
    simp
  . intro _ _
    right
    simp

theorem Inv.step {o : Unit} (h : Inv s) (hheard : s.Heard tick) (hstep : s.step tick = some (s', o))
    : Inv s' := by
  cases stepped hstep with
  | complete => apply h.complete
  | call hstop hcqe hp => apply h.forwards (forwards_step hstop hcqe hp)
  | run _ hrun => apply h.runStep hheard hrun
  | stop _ hstop => apply h.stopStep hheard hstop

theorem no_lost_stop {proactor : IOUringProactor} {ready : List (InFlight × Int32)}
    (hrun : Run (restrict Heard (ofStep step)) (launch proactor ready) trace s)
    : ¬ s.Lost := by
  apply Inv.not_lost
  apply hrun.invariant
  . constructor
    . intro hne
      exact absurd rfl hne
    . intro hsubmit
      simp [launch] at hsubmit
    . intro hreturned
      simp [launch] at hreturned
  . intro s₁ tick o s₂ h hstep
    apply h.step hstep.1 hstep.2

theorem no_lost_stop_of_wake_up
    : ∃ trace s, Run (restrict Heard (ofStep step)) (launch (.ofEntries 0) []) trace s
        ∧ s.stop = .returned ∧ s.run = .returned ∧ ¬ s.Lost := by
  let ticks : List Tick := [.runStore, .runLoad, .call (.sleepFor 5 ⟨0, some 0, some 0, 1⟩), .stopStore,
    .stopGetSqe (some 0), .stopSubmit 1, .complete 1 0, .runWaitCqe 0, .runHandleCqe, .runCqeSeen, .runLoad]
  have hexec : ((exec (guarded Heard step) (launch (.ofEntries 0) []) ticks).map fun r =>
      (r.1.stop, r.1.run)) = some (.returned, .returned) := by decide
  rcases Option.map_eq_some_iff.mp hexec with ⟨⟨s, outs⟩, hexec, heq⟩
  simp only [Prod.mk.injEq] at heq
  have hrun := run_restrict_of_exec hexec
  exact ⟨_, s, hrun, heq.1, heq.2, no_lost_stop hrun⟩

/--
`run` starts after `stop` and takes the flag back, or `run` waits while a request that could not be submitted
is in the only entry that the ring has.
-/
theorem lost_stop
    : (∃ trace s, Run (ofStep step) (launch (.ofEntries 0) []) trace s ∧ s.Lost
          ∧ s.proactor.running = true ∧ s.Stuck)
        ∧
      ∃ trace s, Run (ofStep step) (launch (.ofEntries 0) []) trace s ∧ s.Lost
        ∧ s.proactor.running = false ∧ s.Stuck := by
  constructor
  . let ticks : List Tick := [.stopStore, .stopGetSqe (some 0), .stopSubmit 1, .runStore, .runLoad,
      .complete 0 0, .runWaitCqe 0, .runHandleCqe, .runCqeSeen, .runLoad]
    have hexec : ((exec step (launch (.ofEntries 0) []) ticks).map fun r =>
        (decide r.1.Lost, r.1.proactor.running, decide r.1.Stuck)) = some (true, true, true) := by decide
    rcases Option.map_eq_some_iff.mp hexec with ⟨⟨s, outs⟩, hexec, heq⟩
    simp only [Prod.mk.injEq, decide_eq_true_eq] at heq
    exact ⟨_, s, run_of_exec hexec, heq⟩
  . let ticks : List Tick := [.runStore, .runLoad, .call (.sleepFor 5 ⟨0, some 0, some 0, -11⟩), .stopStore,
      .stopGetSqe none]
    have hexec : ((exec step (launch (.ofEntries 0) []) ticks).map fun r =>
        (decide r.1.Lost, r.1.proactor.running, decide r.1.Stuck)) = some (true, false, true) := by decide
    rcases Option.map_eq_some_iff.mp hexec with ⟨⟨s, outs⟩, hexec, heq⟩
    simp only [Prod.mk.injEq, decide_eq_true_eq] at heq
    exact ⟨_, s, run_of_exec hexec, heq⟩

end EventLoop

end Net

end Sfap
