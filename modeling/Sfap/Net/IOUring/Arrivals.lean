import Sfap.Net.IOUring.EventLoop

/-!
This module contains what `run` does with the completions that arrive: it handles each one once and in the
order of their arrival, and hardly any more once it has been told to stop.
-/

namespace Sfap

namespace Net

open IOUring

namespace IOUringProactor

variable {s s' : IOUringProactor}

theorem handled_resume (s : IOUringProactor) (f : Frame) : (s.resume f).handled = s.handled := by
  unfold resume
  dsimp only
  split
  . rfl
  . next call _ =>
    split
    . rfl
    . rcases proceed_eq { s with resumed := s.resumed ++ [f] } f call with ⟨s₁, hsame, heq⟩
      rw [heq]
      exact hsame.handled

theorem handled_exitWith (s : IOUringProactor) (f : Frame) (call : Call) (error : ErrorCode)
    : (s.exitWith f call error).handled = s.handled := by
  unfold exitWith
  rw [handled_resume]
  rfl

theorem handled_freeOpdata (s : IOUringProactor) (a : Addr) : (s.freeOpdata a).handled = s.handled := by
  unfold freeOpdata
  split <;> rfl

theorem handled_completeOn (s : IOUringProactor) (f : Frame) (result : Int32)
    : (s.completeOn f result).handled = s.handled := by
  unfold completeOn
  split <;> rfl

theorem handled_submit (s : IOUringProactor) (result : Int32) : (s.submit result).handled = s.handled := by
  unfold submit
  split <;> rfl

theorem handled_suspendOn (s : IOUringProactor) (f : Frame) (call : Call) (noSqe : ErrorCode)
    (request : Request) (env : Env)
    : (s.suspendOn f call noSqe request env).handled = s.handled := by
  unfold suspendOn
  split
  . apply handled_exitWith
  . dsimp only
    split
    . rw [handled_exitWith]
      rfl
    . split
      . rw [handled_exitWith, handled_freeOpdata, handled_submit]
        rfl
      . unfold setCall
        dsimp only
        rw [handled_submit]
        rfl

theorem handled_transfer (s : IOUringProactor) (f : Frame) (call : Call) (data : ByteSpan)
    (request : Int32 → Request) (env : Env)
    : (TransferAwaiter.awaitSuspend s f call data request env).handled = s.handled := by
  unfold TransferAwaiter.awaitSuspend
  split
  . apply handled_exitWith
  . split
    . apply handled_exitWith
    . apply handled_suspendOn

theorem handled_connect (s : IOUringProactor) (address : InternalAddress) (fd : Int32) (env : Env)
    : (s.connect address fd env).handled = s.handled := by
  unfold connect newFrame
  dsimp only
  split
  . rfl
  . have hsame := sameCalls_emplaceSocket
      { s with nextFrame := s.nextFrame + 1, nextHandleId := s.nextHandleId + 1 } s.nextHandleId ⟨fd, false⟩
    unfold ConnectAwaiter.awaitSuspend
    split
    . rw [handled_exitWith]
      exact hsame.handled
    . rw [handled_suspendOn]
      exact hsame.handled

theorem handled_step {op : Op} {o : Option Outcome} (hcqe : ∀ i result, op ≠ .handleCqe i result)
    (hstop : ∀ sqe result, op ≠ .stop sqe result) (hstep : s.step op = some (s', o))
    : s'.handled = s.handled := by
  cases op with
  | connect address fd env =>
    rcases called_eq_some hstep with ⟨_, rfl⟩
    apply handled_connect
  | sleepFor d env =>
    rcases called_eq_some hstep with ⟨_, rfl⟩
    unfold sleepFor
    dsimp only
    split
    . rfl
    . apply handled_suspendOn
  | socketSend sid data env =>
    rcases called_eq_some hstep with ⟨_, rfl⟩
    unfold socketSend
    dsimp only
    split
    . rfl
    . apply handled_transfer
  | socketRecv sid data env =>
    rcases called_eq_some hstep with ⟨_, rfl⟩
    unfold socketRecv
    dsimp only
    split
    . rfl
    . apply handled_transfer
  | close handle =>
    cases hstep
    exact (sameCalls_close s handle).handled
  | stop sqe result => exact absurd rfl (hstop sqe result)
  | handleCqe i result => exact absurd rfl (hcqe i result)

theorem handled_handleCqe {cqe : InFlight} {result : Int32} (hstep : s.handleCqe cqe result = some s')
    : ∃ target, s'.handled = s.handled ++ [⟨cqe.origin, cqe.sqe.request, result, target⟩] := by
  unfold handleCqe at hstep
  split at hstep
  . rw [Option.some.injEq] at hstep
    rw [← hstep]
    exact ⟨none, rfl⟩
  . split at hstep
    . simp at hstep
    . next cell _ =>
      rw [Option.some.injEq] at hstep
      rw [← hstep, handled_resume, handled_freeOpdata, handled_completeOn]
      exact ⟨some cell, rfl⟩

end IOUringProactor

structure Completion where
  origin : Option Frame
  request : Request
  result : Int32
  deriving DecidableEq, Repr

def Completion.ofHandled (entry : Handled) : Completion :=
  ⟨entry.origin, entry.request, entry.result⟩

def Completion.ofReady (entry : InFlight × Int32) : Completion :=
  ⟨entry.1.origin, entry.1.sqe.request, entry.2⟩

namespace EventLoop

open IOUringProactor (Op handled_step handled_submit handled_handleCqe forwards_step forwards_submit
  sameRing_handleCqe)
open Transition

variable {s s' : EventLoop} {tick : Tick}

def arrivals (s : EventLoop) : Tick → List Completion
  | .complete i result => (s.proactor.inFlight[i]?.map fun cqe => Completion.ofReady (cqe, result)).toList
  | _ => []

def handled (s : EventLoop) : List Completion :=
  s.proactor.handled.map .ofHandled

-- the head stays in the queue until it has been marked as seen
def unhandled (s : EventLoop) : List Completion :=
  match s.run with
  | .cqeSeen => s.ready.tail.map .ofReady
  | _ => s.ready.map .ofReady

structure Logged where
  loop : EventLoop
  log : List Completion

def Logged.step (s : Logged) (tick : Tick) : Option (Logged × Unit) :=
  (s.loop.step tick).map fun (loop, _) => (⟨loop, s.log ++ s.loop.arrivals tick⟩, ())

structure Queued (s : EventLoop) : Prop where
  head : ∀ cqe result, s.run = .handleCqe cqe result → ∃ rest, s.ready = (cqe, result) :: rest
  seen : s.run = .cqeSeen → s.ready ≠ []

structure Conveys (s : EventLoop) (new : List Completion) (s' : EventLoop) : Prop where
  queued : Queued s'
  conserved : s'.handled ++ s'.unhandled = s.handled ++ s.unhandled ++ new

theorem unhandled_of_ne (h : s.run ≠ .cqeSeen) : s.unhandled = s.ready.map .ofReady := by
  unfold unhandled
  split
  . next heq => exact absurd heq h
  . rfl

theorem Queued.still (h : Queued s) (hhandled : s'.proactor.handled = s.proactor.handled)
    (hready : s'.ready = s.ready) (hrun : s'.run = s.run)
    : Conveys s [] s' := by
  constructor
  . constructor
    . rw [hrun, hready]
      exact h.head
    . rw [hrun, hready]
      exact h.seen
  . unfold handled unhandled
    rw [hhandled, hready, hrun, List.append_nil]

theorem Queued.moves (hhandled : s'.proactor.handled = s.proactor.handled) (hready : s'.ready = s.ready)
    (hrun : s.run ≠ .cqeSeen) (hrun' : s'.run ≠ .cqeSeen)
    (hhead : ∀ cqe result, s'.run = .handleCqe cqe result → ∃ rest, s'.ready = (cqe, result) :: rest)
    : Conveys s [] s' := by
  constructor
  . constructor
    . exact hhead
    . intro heq
      exact absurd heq hrun'
  . rw [unhandled_of_ne hrun, unhandled_of_ne hrun']
    unfold handled
    rw [hhandled, hready, List.append_nil]

theorem Queued.runStep (h : Queued s) (hstep : s.runStep tick = some s') : Conveys s [] s' := by
  cases tick with
  | runStore =>
    unfold EventLoop.runStep at hstep
    dsimp only at hstep
    split at hstep
    . next hrun =>
      cases hstep
      refine Queued.moves rfl rfl ?_ ?_ ?_ <;> simp [hrun]
    . simp at hstep
  | runLoad =>
    unfold EventLoop.runStep at hstep
    dsimp only at hstep
    split at hstep
    . next hrun =>
      cases hstep
      refine Queued.moves rfl rfl (by simp [hrun]) ?_ ?_
      . dsimp only
        split <;> simp
      . intro cqe result heq
        dsimp only at heq
        split at heq <;> simp at heq
    . simp at hstep
  | runWaitCqe result =>
    unfold EventLoop.runStep at hstep
    dsimp only at hstep
    split at hstep
    . next hrun =>
      split at hstep
      . cases hstep
        refine Queued.moves rfl rfl ?_ ?_ ?_ <;> simp [hrun]
      . split at hstep
        . simp at hstep
        . next cqe result rest hready =>
          cases hstep
          refine Queued.moves rfl rfl (by simp [hrun]) (by simp) ?_
          intro cqe' result' heq
          cases heq
          exact ⟨rest, hready⟩
    . simp at hstep
  | runHandleCqe =>
    unfold EventLoop.runStep at hstep
    dsimp only at hstep
    split at hstep
    . next cqe result hrun =>
      rw [Option.map_eq_some_iff] at hstep
      rcases hstep with ⟨p, hp, rfl⟩
      rcases h.head cqe result hrun with ⟨rest, hready⟩
      rcases handled_handleCqe hp with ⟨target, hhandled⟩
      constructor
      . constructor
        . intro cqe' result' heq
          simp at heq
        . intro _
          simp [hready]
      . rw [unhandled_of_ne (s := s) (by simp [hrun])]
        unfold handled unhandled
        dsimp only
        rw [hhandled, hready, List.map_append, List.append_nil, List.append_assoc]
        rfl
    . simp at hstep
  | runCqeSeen =>
    unfold EventLoop.runStep at hstep
    dsimp only at hstep
    split at hstep
    . next hrun =>
      cases hstep
      constructor
      . constructor
        . intro cqe result heq
          simp at heq
        . intro heq
          simp at heq
      . unfold handled unhandled
        dsimp only
        rw [hrun, List.append_nil]
    . simp at hstep
  | _ =>
    unfold EventLoop.runStep at hstep
    simp at hstep

theorem Queued.stopStep (h : Queued s) (hstep : s.stopStep tick = some s') : Conveys s [] s' := by
  cases tick with
  | stopStore =>
    unfold EventLoop.stopStep at hstep
    dsimp only at hstep
    split at hstep
    . cases hstep
      exact h.still rfl rfl rfl
    . simp at hstep
  | stopGetSqe sqe =>
    unfold EventLoop.stopStep at hstep
    dsimp only at hstep
    split at hstep
    . split at hstep
      . split at hstep
        . cases hstep
          exact h.still rfl rfl rfl
        . cases hstep
          exact h.still rfl rfl rfl
      . simp at hstep
    . simp at hstep
  | stopSubmit result =>
    unfold EventLoop.stopStep at hstep
    dsimp only at hstep
    split at hstep
    . cases hstep
      refine h.still ?_ rfl rfl
      apply handled_submit
    . simp at hstep
  | _ =>
    unfold EventLoop.stopStep at hstep
    simp at hstep

theorem Queued.complete (h : Queued s) {proactor : IOUringProactor} (hhandled : proactor.handled = s.proactor.handled)
    (entry : InFlight × Int32)
    : Conveys s [.ofReady entry] { s with proactor := proactor, ready := s.ready ++ [entry] } := by
  constructor
  . constructor
    . intro cqe result hrun
      rcases h.head cqe result hrun with ⟨rest, hready⟩
      refine ⟨rest ++ [entry], ?_⟩
      dsimp only
      rw [hready]
      rfl
    . simp
  . unfold handled unhandled
    dsimp only
    rw [hhandled]
    split
    . next hrun =>
      rw [List.tail_append_of_ne_nil (h.seen hrun), List.map_append, List.append_assoc]
      rfl
    . rw [List.map_append, List.append_assoc]
      rfl

theorem Queued.step {o : Unit} (h : Queued s) (hstep : s.step tick = some (s', o))
    : Conveys s (s.arrivals tick) s' := by
  have harrivals (hcomplete : ∀ i result, tick ≠ .complete i result) : s.arrivals tick = [] := by
    unfold arrivals
    split
    . next i result => exact absurd rfl (hcomplete i result)
    . rfl
  cases stepped hstep with
  | @complete i result cqe hi =>
    have harrived : s.arrivals (.complete i result) = [.ofReady (cqe, result)] := by simp [arrivals, hi]
    rw [harrived]
    apply h.complete
    rfl
  | call hstop hcqe hp =>
    refine h.still ?_ rfl rfl
    apply handled_step hcqe hstop hp
  | run hcomplete hrun =>
    rw [harrivals hcomplete]
    apply h.runStep hrun
  | stop hcomplete hstop =>
    rw [harrivals hcomplete]
    apply h.stopStep hstop

/--
Whatever the two threads do, the completions that have been handled, followed by those that wait in the
queue, are those that there were at first, followed by all that have arrived since, in this order. So none
is lost, none is handled twice and none overtakes another.
-/
theorem handled_in_order {proactor : IOUringProactor} {ready : List (InFlight × Int32)}
    {trace : List (Tick × Unit)} {r : Logged}
    (hrun : Run (ofStep Logged.step) ⟨launch proactor ready, []⟩ trace r)
    : r.loop.handled ++ r.loop.unhandled
        = proactor.handled.map .ofHandled ++ ready.map .ofReady ++ r.log := by
  have h : Conveys (launch proactor ready) r.log r.loop := by
    induction hrun with
    | nil =>
      refine ⟨⟨by simp [launch], by simp [launch]⟩, ?_⟩
      rw [List.append_nil]
    | snoc _ hlast ih =>
      unfold ofStep Logged.step at hlast
      rw [Option.map_eq_some_iff] at hlast
      rcases hlast with ⟨⟨loop, o⟩, hloop, hlogged⟩
      cases hlogged
      have hconveys := ih.queued.step hloop
      refine ⟨hconveys.queued, ?_⟩
      rw [hconveys.conserved, ih.conserved, List.append_assoc]
  exact h.conserved

-- the second completion arrives while the first is handled
theorem handled_in_order_of_two
    : ∃ trace r, Run (ofStep Logged.step) ⟨launch (.ofEntries 0) [], []⟩ trace r
        ∧ r.log.map Completion.origin = [some 1, some 0]
        ∧ r.loop.handled ++ r.loop.unhandled = r.log ∧ r.loop.handled.length = 1 := by
  let ticks : List Tick := [.runStore, .runLoad, .call (.sleepFor 5 ⟨0, some 0, some 0, 1⟩),
    .call (.sleepFor 5 ⟨0, some 0, some 1, 1⟩), .complete 1 (-62), .runWaitCqe 0, .runHandleCqe,
    .complete 0 (-62), .runCqeSeen, .runLoad]
  have hexec : ((exec Logged.step ⟨launch (.ofEntries 0) [], []⟩ ticks).map fun r =>
      (r.1.log.map Completion.origin, r.1.loop.handled.length)) = some ([some 1, some 0], 1) := by decide
  rcases Option.map_eq_some_iff.mp hexec with ⟨⟨r, outs⟩, hexec, heq⟩
  rw [Prod.mk.injEq] at heq
  have hrun := run_of_exec hexec
  have horder := handled_in_order hrun
  refine ⟨_, r, hrun, heq.1, ?_, heq.2⟩
  rw [horder]
  rfl

def Tick.ofRun : Tick → Bool
  | .runStore => true
  | .runLoad => true
  | .runWaitCqe _ => true
  | .runHandleCqe => true
  | .runCqeSeen => true
  | _ => false

def Tick.handles : Tick → Bool
  | .runHandleCqe => true
  | _ => false

def remaining (s : EventLoop) : Nat :=
  match s.run with
  | .store => 0
  | .load => 1
  | .waitCqe => 4
  | .handleCqe _ _ => 3
  | .cqeSeen => 2
  | .returned => 0

def toHandle (s : EventLoop) : Nat :=
  match s.run with
  | .waitCqe => 1
  | .handleCqe _ _ => 1
  | _ => 0

def Launched (s : EventLoop) : Tick → Prop
  | .runStore => s.stop = .store
  | _ => True

instance (s : EventLoop) : (tick : Tick) → Decidable (s.Launched tick)
  | .runStore => inferInstanceAs (Decidable (s.stop = .store))
  | .runLoad => .isTrue trivial
  | .runWaitCqe _ => .isTrue trivial
  | .runHandleCqe => .isTrue trivial
  | .runCqeSeen => .isTrue trivial
  | .stopStore => .isTrue trivial
  | .stopGetSqe _ => .isTrue trivial
  | .stopSubmit _ => .isTrue trivial
  | .complete .. => .isTrue trivial
  | .call _ => .isTrue trivial

structure Stopping (s : EventLoop) : Prop where
  stop : s.stop ≠ .store
  running : s.proactor.running = false

theorem Stopping.congr (h : s.Stopping) (hstop : s'.stop ≠ .store)
    (hrunning : s'.proactor.running = s.proactor.running)
    : s'.Stopping := by
  exact ⟨hstop, hrunning.trans h.running⟩

theorem Stopping.runStep (h : s.Stopping) (hlaunched : s.Launched tick) (hstep : s.runStep tick = some s')
    : s'.Stopping
        ∧ s'.remaining + 1 ≤ s.remaining
        ∧ s'.toHandle + (if tick.handles then 1 else 0) ≤ s.toHandle := by
  cases tick with
  | runStore => exact absurd hlaunched h.stop
  | runLoad =>
    unfold EventLoop.runStep at hstep
    dsimp only at hstep
    split at hstep
    . next hrun =>
      cases hstep
      refine ⟨h.congr h.stop rfl, ?_⟩
      simp [remaining, toHandle, Tick.handles, hrun, h.running]
    . simp at hstep
  | runWaitCqe result =>
    unfold EventLoop.runStep at hstep
    dsimp only at hstep
    split at hstep
    . next hrun =>
      split at hstep
      . cases hstep
        refine ⟨h.congr h.stop rfl, ?_⟩
        simp [remaining, toHandle, Tick.handles, hrun]
      . split at hstep
        . simp at hstep
        . cases hstep
          refine ⟨h.congr h.stop rfl, ?_⟩
          simp [remaining, toHandle, Tick.handles, hrun]
    . simp at hstep
  | runHandleCqe =>
    unfold EventLoop.runStep at hstep
    dsimp only at hstep
    split at hstep
    . next cqe result hrun =>
      rw [Option.map_eq_some_iff] at hstep
      rcases hstep with ⟨p, hp, rfl⟩
      refine ⟨h.congr h.stop (sameRing_handleCqe hp).running, ?_⟩
      simp [remaining, toHandle, Tick.handles, hrun]
    . simp at hstep
  | runCqeSeen =>
    unfold EventLoop.runStep at hstep
    dsimp only at hstep
    split at hstep
    . next hrun =>
      cases hstep
      refine ⟨h.congr h.stop rfl, ?_⟩
      simp [remaining, toHandle, Tick.handles, hrun]
    . simp at hstep
  | _ =>
    unfold EventLoop.runStep at hstep
    simp at hstep

theorem stopStep_stopping (h : s.stop = .store ∨ s.Stopping) (hstep : s.stopStep tick = some s')
    : s'.Stopping ∧ s'.run = s.run ∧ tick.ofRun = false ∧ tick.handles = false := by
  have hcleared (hstop : s.stop ≠ .store) : s.Stopping := h.resolve_left hstop
  cases tick with
  | stopStore =>
    unfold EventLoop.stopStep at hstep
    dsimp only at hstep
    split at hstep
    . cases hstep
      exact ⟨⟨by simp, rfl⟩, rfl, rfl, rfl⟩
    . simp at hstep
  | stopGetSqe sqe =>
    unfold EventLoop.stopStep at hstep
    dsimp only at hstep
    split at hstep
    . next hstop =>
      have hstopping := hcleared (by simp [hstop])
      split at hstep
      . split at hstep
        . cases hstep
          exact ⟨hstopping.congr (by simp) rfl, rfl, rfl, rfl⟩
        . cases hstep
          exact ⟨hstopping.congr (by simp) rfl, rfl, rfl, rfl⟩
      . simp at hstep
    . simp at hstep
  | stopSubmit result =>
    unfold EventLoop.stopStep at hstep
    dsimp only at hstep
    split at hstep
    . next hstop =>
      have hstopping := hcleared (by simp [hstop])
      cases hstep
      exact ⟨hstopping.congr (by simp) (forwards_submit s.proactor result).running, rfl, rfl, rfl⟩
    . simp at hstep
  | _ =>
    unfold EventLoop.stopStep at hstep
    simp at hstep

theorem runStep_stop (hstep : s.runStep tick = some s') : s'.stop = s.stop := by
  unfold EventLoop.runStep at hstep
  split at hstep
  . split at hstep
    . cases hstep
      rfl
    . simp at hstep
  . split at hstep
    . cases hstep
      rfl
    . simp at hstep
  . split at hstep
    . split at hstep
      . cases hstep
        rfl
      . split at hstep
        . simp at hstep
        . cases hstep
          rfl
    . simp at hstep
  . split at hstep
    . rw [Option.map_eq_some_iff] at hstep
      rcases hstep with ⟨p, _, rfl⟩
      rfl
    . simp at hstep
  . split at hstep
    . cases hstep
      rfl
    . simp at hstep
  . simp at hstep

theorem remaining_congr (h : s'.run = s.run) : s'.remaining = s.remaining ∧ s'.toHandle = s.toHandle := by
  unfold remaining toHandle
  rw [h]
  exact ⟨rfl, rfl⟩

theorem step_cases {o : Unit} (hstep : s.step tick = some (s', o))
    : s.runStep tick = some s' ∨ s.stopStep tick = some s'
        ∨ s'.run = s.run ∧ s'.stop = s.stop ∧ s'.proactor.running = s.proactor.running
          ∧ tick.ofRun = false ∧ tick.handles = false := by
  cases stepped hstep with
  | complete => exact .inr (.inr ⟨rfl, rfl, rfl, rfl, rfl⟩)
  | call hstop hcqe hp =>
    have hforwards := forwards_step hstop hcqe hp
    exact .inr (.inr ⟨rfl, rfl, hforwards.running, rfl, rfl⟩)
  | run _ hrun => exact .inl hrun
  | stop _ hstop => exact .inr (.inl hstop)

theorem Stopping.step {o : Unit} (h : s.Stopping) (hlaunched : s.Launched tick)
    (hstep : s.step tick = some (s', o))
    : s'.Stopping
        ∧ s'.remaining + (if tick.ofRun then 1 else 0) ≤ s.remaining
        ∧ s'.toHandle + (if tick.handles then 1 else 0) ≤ s.toHandle := by
  rcases step_cases hstep with hrun | hstop | ⟨hrun, hstop, hrunning, hof, hhandles⟩
  . rcases h.runStep hlaunched hrun with ⟨hstopping, hremaining, htoHandle⟩
    have hle : (if tick.ofRun then 1 else 0) ≤ 1 := by split <;> simp
    exact ⟨hstopping, by omega, htoHandle⟩
  . rcases stopStep_stopping (.inr h) hstop with ⟨hstopping, hrun, hof, hhandles⟩
    rw [(remaining_congr hrun).1, (remaining_congr hrun).2, hof, hhandles]
    exact ⟨hstopping, Nat.le_refl _, Nat.le_refl _⟩
  . rw [(remaining_congr hrun).1, (remaining_congr hrun).2, hof, hhandles]
    exact ⟨h.congr (by rw [hstop]; exact h.stop) hrunning, Nat.le_refl _, Nat.le_refl _⟩

theorem step_stopping {o : Unit} (h : s.stop = .store ∨ s.Stopping) (hlaunched : s.Launched tick)
    (hstep : s.step tick = some (s', o))
    : s'.stop = .store ∨ s'.Stopping := by
  rcases h with hstore | hstopping
  . rcases step_cases hstep with hrun | hstop | ⟨_, hstop, _⟩
    . exact .inl ((runStep_stop hrun).trans hstore)
    . exact .inr (stopStep_stopping (.inl hstore) hstop).1
    . exact .inl (hstop.trans hstore)
  . exact .inr (hstopping.step hlaunched hstep).1

theorem run_stopping {rest : List (Tick × Unit)} (h : s.Stopping)
    (hrest : Run (restrict Launched (ofStep EventLoop.step)) s rest s')
    : Run (restrict (fun s tick => s.Stopping ∧ s.Launched tick) (ofStep EventLoop.step)) s rest s'
        ∧ s'.Stopping := by
  induction hrest with
  | nil => exact ⟨.nil, h⟩
  | snoc _ hlast ih =>
    exact ⟨.snoc ih.1 ⟨⟨ih.2, hlast.1⟩, hlast.2⟩, (ih.2.step hlast.1 hlast.2).1⟩

/--
Once `stop` has cleared the flag, `run` takes at most four more steps and handles at most one more
completion, however many arrive.
-/
theorem stops_promptly {proactor : IOUringProactor} {ready : List (InFlight × Int32)}
    {trace rest : List (Tick × Unit)}
    (hrun : Run (restrict Launched (ofStep EventLoop.step)) (launch proactor ready) trace s)
    (hstop : s.stop ≠ .store) (hrest : Run (restrict Launched (ofStep EventLoop.step)) s rest s')
    : rest.countP (fun r => r.1.ofRun) ≤ 4 ∧ rest.countP (fun r => r.1.handles) ≤ 1 := by
  have hcleared : s.stop = .store ∨ s.Stopping := by
    apply hrun.invariant
    . exact .inl rfl
    . intro s₁ tick o s₂ h hstep
      apply step_stopping h hstep.1 hstep.2
  have hrest := (run_stopping (hcleared.resolve_left hstop) hrest).1
  have hsteps := hrest.potential remaining Tick.ofRun (fun _ => 0) (by
    intro s₁ tick o s₂ hstep
    exact (hstep.1.1.step hstep.1.2 hstep.2).2.1)
  have hhandles := hrest.potential toHandle Tick.handles (fun _ => 0) (by
    intro s₁ tick o s₂ hstep
    exact (hstep.1.1.step hstep.1.2 hstep.2).2.2)
  have hremaining : s.remaining ≤ 4 := by
    unfold remaining
    split <;> simp
  have htoHandle : s.toHandle ≤ 1 := by
    unfold toHandle
    split <;> simp
  simp only [List.map_const', List.sum_replicate_nat, Nat.mul_zero, Nat.add_zero] at hsteps hhandles
  constructor
  . omega
  . omega

-- two completions have arrived when `stop` is called, and one of them is handled
theorem stops_promptly_of_two_ready
    : ∃ trace s rest s', Run (restrict Launched (ofStep EventLoop.step)) (launch (.ofEntries 0) []) trace s
        ∧ Run (restrict Launched (ofStep EventLoop.step)) s rest s'
        ∧ s'.run = .returned ∧ s'.ready.length = 1 ∧ rest.countP (fun r => r.1.handles) ≤ 1 := by
  let ticks : List Tick := [.runStore, .runLoad, .call (.sleepFor 5 ⟨0, some 0, some 0, 1⟩),
    .call (.sleepFor 5 ⟨0, some 0, some 1, 1⟩), .complete 1 (-62), .complete 0 (-62), .stopStore]
  let others : List Tick := [.runWaitCqe 0, .stopGetSqe (some 0), .runHandleCqe, .stopSubmit 1, .runCqeSeen,
    .runLoad]
  have hexec : ((exec (guarded Launched step) (launch (.ofEntries 0) []) ticks).bind fun r₁ =>
      (exec (guarded Launched step) r₁.1 others).map fun r₂ =>
        (r₁.1.stop, r₂.1.run, r₂.1.ready.length)) = some (.getSqe, .returned, 1) := by decide
  rcases Option.bind_eq_some_iff.mp hexec with ⟨⟨s, outs⟩, hexec₁, hexec₂⟩
  rcases Option.map_eq_some_iff.mp hexec₂ with ⟨⟨s', outs'⟩, hexec₂, heq⟩
  simp only [Prod.mk.injEq] at heq
  rcases heq with ⟨hstop, hrun', hready⟩
  have hrun := run_restrict_of_exec hexec₁
  have hrest := run_restrict_of_exec hexec₂
  have hne : s.stop ≠ .store := by
    rw [hstop]
    simp
  exact ⟨_, s, _, s', hrun, hrest, hrun', hready, (stops_promptly hrun hne hrest).2⟩

end EventLoop

end Net

end Sfap
