import Sfap.Net.IOUring.EventLoop
import Sfap.Net.IOUring.Steps

/-!
This module contains the life of a proactor from its constructor to its destructor, with what is called on its ring,
and what it does where there is no ring.
-/

namespace Sfap

namespace Net

open IOUring

-- a function of liburing that works on `ring_`
inductive RingCall where
  | getSqe
  | submit
  | waitCqe
  | cqeSeen
  | queueExit
  deriving DecidableEq, Repr

namespace IOUringProactor

-- an `await_suspend` from `io_uring_get_sqe` on
def Env.ringCalls (env : Env) : List RingCall :=
  match env.sqe, env.opdata with
  | some _, some _ => [.getSqe, .submit]
  | _, _ => [.getSqe]

def transferCalls (s : IOUringProactor) (sid : SocketT) (data : ByteSpan) (env : Env) : List RingCall :=
  match s.sockets sid with
  | none => []
  | some _ => if data.size == 0 then [] else env.ringCalls

def Op.ringCalls (s : IOUringProactor) : Op → List RingCall
  | .connect _ fd env => if fd < 0 then [] else env.ringCalls
  | .sleepFor d env => if d ≤ 0 then [] else env.ringCalls
  | .socketSend sid data env => s.transferCalls sid data env
  | .socketRecv sid data env => s.transferCalls sid data env
  | .close _ => []
  | .stop none _ => [.getSqe]
  | .stop (some _) _ => [.getSqe, .submit]
  | .handleCqe .. => []

def Op.origin (s : IOUringProactor) : Op → Option IOUring.Frame
  | .stop .. => none
  | _ => some s.nextFrame

def Op.sqe : Op → Option Nat
  | .connect _ _ env => env.sqe
  | .sleepFor _ env => env.sqe
  | .socketSend _ _ env => env.sqe
  | .socketRecv _ _ env => env.sqe
  | .stop sqe _ => sqe
  | _ => none

def Op.submitted : Op → Int32
  | .connect _ _ env => env.submit
  | .sleepFor _ env => env.submit
  | .socketSend _ _ env => env.submit
  | .socketRecv _ _ env => env.submit
  | .stop _ result => result
  | _ => 0

end IOUringProactor

structure Life where
  loop : EventLoop
  destroyed : Bool
  log : List RingCall

structure Ring where
  queued : List Queued
  inFlight : List (Option IOUring.Frame)
  ready : List (InFlight × Int32)

namespace Life

open IOUringProactor (Op Env Fails Idle IsError)
open EventLoop (Tick)
open Transition

inductive Event where
  -- `run` or `stop` is called, its steps are ticks
  | run
  | stop
  | tick (tick : Tick)
  | destroy (keys : List SocketT)

-- `result` is that of `io_uring_queue_init`
def init (result : Int32) : Life :=
  ⟨⟨.ofEntries result, [], .returned, .returned⟩, false, []⟩

def ringCalls (s : EventLoop) : Tick → List RingCall
  | .runWaitCqe _ => [.waitCqe]
  | .runCqeSeen => [.cqeSeen]
  | .stopGetSqe _ => [.getSqe]
  | .stopSubmit _ => [.submit]
  | .call op => op.ringCalls s.proactor
  | _ => []

def origin (s : EventLoop) : Tick → Option IOUring.Frame
  | .call op => op.origin s.proactor
  | _ => none

def sqe : Tick → Option Nat
  | .call op => op.sqe
  | .stopGetSqe sqe => sqe
  | _ => none

def submitted : Tick → Int32
  | .call op => op.submitted
  | .stopSubmit result => result
  | _ => 0

def ringOf (s : IOUringProactor) (ready : List (InFlight × Int32)) : Ring :=
  ⟨s.queued, s.inFlight.map (·.origin), ready⟩

def ring (w : Life) : Ring :=
  ringOf w.loop.proactor w.loop.ready

-- what a call does to the ring, `sqe` and `submitted` are what it returns
def act (origin : Option IOUring.Frame) (sqe : Option Nat) (submitted : Int32) (r : Ring) : RingCall → Ring
  | .getSqe =>
    match sqe with
    | none => r
    | some slot => { r with queued := r.queued ++ [⟨slot, origin⟩] }
  | .submit =>
    if submitted < 0 then
      r
    else
      { r with queued := [], inFlight := r.inFlight ++ r.queued.map (·.origin) }
  | .waitCqe => r
  | .cqeSeen => { r with ready := r.ready.tail }
  | .queueExit => r

def replay (origin : Option IOUring.Frame) (sqe : Option Nat) (submitted : Int32) (calls : List RingCall) (r : Ring)
    : Ring :=
  calls.foldl (act origin sqe submitted) r

def step (w : Life) (event : Event) : Option (Life × Unit) :=
  if w.destroyed then
    none
  else
    match event with
    | .run =>
      if w.loop.run = .returned then some ({ w with loop := { w.loop with run := .store } }, ()) else none
    | .stop =>
      if w.loop.stop = .returned then some ({ w with loop := { w.loop with stop := .store } }, ()) else none
    | .tick tick =>
      match w.loop.step tick with
      | none => none
      | some (loop, _) => some ({ w with loop := loop, log := w.log ++ ringCalls w.loop tick }, ())
    | .destroy keys =>
      if w.loop.run = .returned ∧ w.loop.stop = .returned then
        some ({
          loop := { w.loop with proactor := w.loop.proactor.destroy keys }
          destroyed := true
          log := w.log ++ [.queueExit]
        }, ())
      else
        none

/--
Nothing has been called on the ring, whatever has something to do has ended with an error, and `run` has not got
into its loop.
-/
structure Unused (w : Life) : Prop where
  log : w.log = []
  calls : ∀ f call, w.loop.proactor.calls f = some call → Fails call
  run : w.loop.run = .returned ∨ w.loop.run = .store ∨ w.loop.run = .load

def Respects (result : Int32) (w : Life) : Prop :=
  result < 0 → Unused w

def OpSpares : Op → Prop
  | .connect _ fd _ => fd < 0
  | .sleepFor d _ => d ≤ 0
  | .socketSend _ data _ => data.size = 0
  | .socketRecv _ data _ => data.size = 0
  | .close _ => True
  | .stop .. => False
  | .handleCqe .. => False

def StepSpares (w : Life) : Event → Prop
  | .run => True
  | .stop => True
  | .tick .runStore => True
  | .tick .runLoad => w.loop.proactor.running = false
  | .tick .stopStore => True
  | .tick (.complete ..) => True
  | .tick (.call op) => OpSpares op
  | .tick _ => False
  | .destroy _ => False

def Spares (result : Int32) (w : Life) (event : Event) : Prop :=
  result < 0 → StepSpares w event

variable {w w' : Life} {s s' : IOUringProactor} {op : Op} {o : Option Outcome} {env : Env} {event : Event}
  {result : Int32} {sid : SocketT} {data : ByteSpan}

theorem toBool_ofEntries (result : Int32)
    : (IOUringProactor.ofEntries result).toBool = false ↔ result < 0 := by
  unfold IOUringProactor.toBool IOUringProactor.ofEntries
  dsimp only
  split
  . next h => simp [ErrorCode.toBool_networkError_neg h, h]
  . next h => simp [h]

theorem ringCalls_ne_nil (env : Env) : env.ringCalls ≠ [] := by
  unfold Env.ringCalls
  split <;> simp

theorem calls_finish {call : IOUring.Call} {outcome : Outcome} (s : IOUringProactor)
    (hcalls : ∀ f call, s.calls f = some call → Fails call)
    (hfails : Fails { call with outcome := some outcome })
    : ∀ f call', (s.newFrame.2.finish s.newFrame.1 call outcome).calls f = some call' → Fails call' := by
  intro f call' hcall
  change Function.update s.calls s.nextFrame _ f = _ at hcall
  by_cases hf : f = s.nextFrame
  . rw [hf, Function.update_self] at hcall
    cases hcall
    exact hfails
  . rw [Function.update_of_ne hf] at hcall
    exact hcalls f call' hcall

theorem transferCalls_of_empty (s : IOUringProactor) (sid : SocketT) (env : Env) (hdata : data.size = 0)
    : s.transferCalls sid data env = [] := by
  unfold IOUringProactor.transferCalls
  rw [hdata]
  split <;> rfl

theorem spared_call (hstep : s.step op = some (s', o)) (hspares : OpSpares op)
    (hcalls : ∀ f call, s.calls f = some call → Fails call)
    : op.ringCalls s = [] ∧ ∀ f call, s'.calls f = some call → Fails call := by
  cases op with
  | connect address fd env =>
    rcases IOUringProactor.called_eq_some hstep with ⟨_, rfl⟩
    have hfd : fd < 0 := hspares
    refine ⟨if_pos hfd, ?_⟩
    unfold IOUringProactor.connect
    dsimp only
    rw [if_pos hfd]
    apply calls_finish s hcalls
    exact ⟨_, rfl, .inr trivial⟩
  | sleepFor d env =>
    rcases IOUringProactor.called_eq_some hstep with ⟨_, rfl⟩
    have hd : d ≤ 0 := hspares
    refine ⟨if_pos hd, ?_⟩
    unfold IOUringProactor.sleepFor
    dsimp only
    rw [if_pos hd]
    apply calls_finish s hcalls
    exact ⟨_, rfl, .inl hspares⟩
  | socketSend sid data env =>
    rcases IOUringProactor.called_eq_some hstep with ⟨_, rfl⟩
    refine ⟨transferCalls_of_empty s sid env hspares, ?_⟩
    have hempty : (data.size == 0) = true := beq_iff_eq.mpr hspares
    unfold IOUringProactor.socketSend
    dsimp only
    rw [if_pos hempty]
    apply calls_finish s hcalls
    exact ⟨_, rfl, .inl hspares⟩
  | socketRecv sid data env =>
    rcases IOUringProactor.called_eq_some hstep with ⟨_, rfl⟩
    refine ⟨transferCalls_of_empty s sid env hspares, ?_⟩
    have hempty : (data.size == 0) = true := beq_iff_eq.mpr hspares
    unfold IOUringProactor.socketRecv
    dsimp only
    rw [if_pos hempty]
    apply calls_finish s hcalls
    exact ⟨_, rfl, .inl hspares⟩
  | close handle =>
    cases hstep
    refine ⟨rfl, ?_⟩
    rw [(IOUringProactor.sameCalls_close s handle).calls]
    exact hcalls
  | stop sqe result => exact absurd hspares id
  | handleCqe i result => exact absurd hspares id

theorem unknown_transfer {f : IOUring.Frame} {args : IOUring.Args} (hnone : s.sockets sid = none)
    (hargs : args = .send data ∨ args = .recv data) (hne : data.size ≠ 0) (request : Int32 → IOUring.Request)
    (env : Env)
    : ∃ call, (IOUring.TransferAwaiter.awaitSuspend s f (.init args sid) data request env).calls f = some call
        ∧ ¬ Fails call := by
  have hfin := IOUringProactor.exitWith_spec s f (.init args sid) .default rfl
  have hsuspend : IOUring.TransferAwaiter.awaitSuspend s f (.init args sid) data request env
      = s.exitWith f (.init args sid) .default := by
    unfold IOUring.TransferAwaiter.awaitSuspend
    have hsocket : (IOUring.Call.init args sid).socket = sid := rfl
    rw [hsocket, hnone]
    rfl
  rw [hsuspend, hfin.calls, Function.update_self]
  refine ⟨_, rfl, ?_⟩
  rintro ⟨outcome, houtcome, hfails⟩
  cases houtcome
  rcases hargs with rfl | rfl
  . rcases hfails with hidle | herror
    . exact hne hidle
    . exact herror
  . rcases hfails with hidle | herror
    . exact hne hidle
    . exact herror

theorem transferCalls_of_some {state : IOUring.SocketState} (hstate : s.sockets sid = some state)
    (hne : data.size ≠ 0) (env : Env)
    : s.transferCalls sid data env ≠ [] := by
  unfold IOUringProactor.transferCalls
  rw [hstate]
  dsimp only
  rw [if_neg (by simpa using hne)]
  apply ringCalls_ne_nil

theorem unspared_transfer {args : IOUring.Args} (hargs : args = .send data ∨ args = .recv data) (hne : data.size ≠ 0)
    (request : Int32 → IOUring.Request) (env : Env)
    : s.transferCalls sid data env ≠ []
        ∨ ∃ f call,
          (IOUring.TransferAwaiter.awaitSuspend s.newFrame.2 s.newFrame.1 (.init args sid) data request env).calls f
              = some call
            ∧ ¬ Fails call := by
  cases hstate : s.sockets sid with
  | some state => exact .inl (transferCalls_of_some hstate hne env)
  | none =>
    have hnone : s.newFrame.2.sockets sid = none := hstate
    exact .inr ⟨s.newFrame.1, unknown_transfer hnone hargs hne request env⟩

theorem unspared_call (hstep : s.step op = some (s', o)) (hspares : ¬ OpSpares op)
    (hstop : ∀ sqe result, op ≠ .stop sqe result) (hcqe : ∀ i result, op ≠ .handleCqe i result)
    : op.ringCalls s ≠ [] ∨ ∃ f call, s'.calls f = some call ∧ ¬ Fails call := by
  cases op with
  | connect address fd env =>
    have hfd : ¬ fd < 0 := hspares
    left
    unfold Op.ringCalls
    dsimp only
    rw [if_neg hfd]
    apply ringCalls_ne_nil
  | sleepFor d env =>
    have hd : ¬ d ≤ 0 := hspares
    left
    unfold Op.ringCalls
    dsimp only
    rw [if_neg hd]
    apply ringCalls_ne_nil
  | socketSend sid data env =>
    rcases IOUringProactor.called_eq_some hstep with ⟨_, rfl⟩
    have hne : ¬ (data.size == 0) = true := mt beq_iff_eq.mp hspares
    unfold IOUringProactor.socketSend
    dsimp only
    rw [if_neg hne]
    exact unspared_transfer (.inl rfl) hspares _ env
  | socketRecv sid data env =>
    rcases IOUringProactor.called_eq_some hstep with ⟨_, rfl⟩
    have hne : ¬ (data.size == 0) = true := mt beq_iff_eq.mp hspares
    unfold IOUringProactor.socketRecv
    dsimp only
    rw [if_neg hne]
    exact unspared_transfer (.inr rfl) hspares _ env
  | close handle => exact absurd trivial hspares
  | stop sqe result => exact absurd rfl (hstop sqe result)
  | handleCqe i result => exact absurd rfl (hcqe i result)

theorem ringOf_congr (h : IOUringProactor.SameRing s s') (ready : List (InFlight × Int32))
    : ringOf s' ready = ringOf s ready := by
  unfold ringOf
  rw [h.queued, h.inFlight]

section Replay

variable (origin : Option IOUring.Frame) (ready : List (InFlight × Int32))

theorem ringOf_submit (s : IOUringProactor) (sqe : Option Nat) (submitted : Int32)
    : ringOf (s.submit submitted) ready = act origin sqe submitted (ringOf s ready) .submit := by
  unfold IOUringProactor.submit act
  dsimp only
  split
  . rfl
  . unfold ringOf
    simp [Function.comp_def]

theorem replay_suspendOn (s : IOUringProactor) (f : IOUring.Frame) (call : IOUring.Call) (noSqe : ErrorCode)
    (request : IOUring.Request) (env : Env)
    : ringOf (s.suspendOn f call noSqe request env) ready
        = replay (some f) env.sqe env.submit env.ringCalls (ringOf s ready) := by
  unfold IOUringProactor.suspendOn Env.ringCalls
  cases hsqe : env.sqe with
  | none => exact ringOf_congr (IOUringProactor.sameRing_exitWith s f call noSqe) ready
  | some slot =>
    cases hopdata : env.opdata with
    | none => exact ringOf_congr (IOUringProactor.sameRing_exitWith _ f call _) ready
    | some a =>
      dsimp only [replay, List.foldl_cons, List.foldl_nil]
      generalize hs₁ : IOUringProactor.prep _ _ _ _ = s₁
      have hring : ringOf s₁ ready = act (some f) (some slot) env.submit (ringOf s ready) .getSqe := by
        rw [← hs₁]
        rfl
      rw [← hring, ← ringOf_submit]
      split
      . rw [ringOf_congr (IOUringProactor.sameRing_exitWith ..),
          ringOf_congr (IOUringProactor.sameRing_freeOpdata ..)]
      . rfl

theorem replay_transfer (s : IOUringProactor) (f : IOUring.Frame) (call : IOUring.Call) (data : ByteSpan)
    (request : Int32 → IOUring.Request) (env : Env)
    : ringOf (IOUring.TransferAwaiter.awaitSuspend s f call data request env) ready
        = replay (some f) env.sqe env.submit (s.transferCalls call.socket data env) (ringOf s ready) := by
  unfold IOUring.TransferAwaiter.awaitSuspend IOUringProactor.transferCalls
  cases s.sockets call.socket with
  | none => exact ringOf_congr (IOUringProactor.sameRing_exitWith s f call _) ready
  | some state =>
    dsimp only
    split
    . exact ringOf_congr (IOUringProactor.sameRing_exitWith s f call _) ready
    . apply replay_suspendOn

theorem replay_connect (s : IOUringProactor) (address : InternalAddress) (fd : Int32) (env : Env)
    : ringOf (s.connect address fd env) ready
        =
      replay (some s.nextFrame) env.sqe env.submit (Op.ringCalls s (.connect address fd env))
        (ringOf s ready) := by
  unfold IOUringProactor.connect Op.ringCalls
  dsimp only
  split
  . rfl
  . unfold IOUring.ConnectAwaiter.awaitSuspend
    split
    . next hnone =>
      rcases IOUringProactor.emplaceSocket_isSome _ s.nextHandleId ⟨fd, false⟩ with ⟨state, hstate⟩
      cases hstate.symm.trans hnone
    . rw [replay_suspendOn, ringOf_congr (IOUringProactor.sameRing_emplaceSocket ..)]
      rfl

theorem replay_sleepFor (s : IOUringProactor) (d : Int64) (env : Env)
    : ringOf (s.sleepFor d env) ready
        = replay (some s.nextFrame) env.sqe env.submit (Op.ringCalls s (.sleepFor d env)) (ringOf s ready) := by
  unfold IOUringProactor.sleepFor Op.ringCalls
  dsimp only
  split
  . rfl
  . apply replay_suspendOn

theorem replay_socketSend (s : IOUringProactor) (sid : SocketT) (data : ByteSpan) (env : Env)
    : ringOf (s.socketSend sid data env) ready
        =
      replay (some s.nextFrame) env.sqe env.submit (Op.ringCalls s (.socketSend sid data env))
        (ringOf s ready) := by
  unfold IOUringProactor.socketSend Op.ringCalls
  dsimp only
  split
  . next hempty =>
    rw [transferCalls_of_empty s sid env (beq_iff_eq.mp hempty)]
    rfl
  . apply replay_transfer

theorem replay_socketRecv (s : IOUringProactor) (sid : SocketT) (data : ByteSpan) (env : Env)
    : ringOf (s.socketRecv sid data env) ready
        =
      replay (some s.nextFrame) env.sqe env.submit (Op.ringCalls s (.socketRecv sid data env))
        (ringOf s ready) := by
  unfold IOUringProactor.socketRecv Op.ringCalls
  dsimp only
  split
  . next hempty =>
    rw [transferCalls_of_empty s sid env (beq_iff_eq.mp hempty)]
    rfl
  . apply replay_transfer

theorem replay_call (hstep : s.step op = some (s', o)) (hcqe : ∀ i result, op ≠ .handleCqe i result)
    : ringOf s' ready = replay (op.origin s) op.sqe op.submitted (op.ringCalls s) (ringOf s ready) := by
  cases op with
  | connect address fd env =>
    rcases IOUringProactor.called_eq_some hstep with ⟨_, rfl⟩
    apply replay_connect
  | sleepFor d env =>
    rcases IOUringProactor.called_eq_some hstep with ⟨_, rfl⟩
    apply replay_sleepFor
  | socketSend sid data env =>
    rcases IOUringProactor.called_eq_some hstep with ⟨_, rfl⟩
    apply replay_socketSend
  | socketRecv sid data env =>
    rcases IOUringProactor.called_eq_some hstep with ⟨_, rfl⟩
    apply replay_socketRecv
  | close handle =>
    cases hstep
    apply ringOf_congr (IOUringProactor.sameRing_close ..)
  | stop sqe result =>
    rcases IOUringProactor.stop_eq_some hstep with ⟨_, rfl⟩
    unfold IOUringProactor.stop
    cases sqe with
    | none => rfl
    | some slot => exact ringOf_submit none ready _ (some slot) result
  | handleCqe i result => exact absurd rfl (hcqe i result)

end Replay

theorem replay_tick {loop loop' : EventLoop} {tick : Tick} {u : Unit} (hstep : loop.step tick = some (loop', u))
    (hcomplete : ∀ i result, tick ≠ .complete i result)
    : ringOf loop'.proactor loop'.ready
        =
      replay (origin loop tick) (sqe tick) (submitted tick) (ringCalls loop tick)
        (ringOf loop.proactor loop.ready) := by
  cases tick with
  | complete i result => exact absurd rfl (hcomplete i result)
  | call op =>
    cases EventLoop.stepped hstep with
    | call _ hcqe hp => exact replay_call loop.ready hp hcqe
    | run _ hrun => simp [EventLoop.runStep] at hrun
    | stop _ hstop => simp [EventLoop.stopStep] at hstop
  | runStore =>
    simp only [EventLoop.step, EventLoop.runStep, EventLoop.stopStep, Option.or_none] at hstep
    split at hstep <;> cases hstep
    rfl
  | runLoad =>
    simp only [EventLoop.step, EventLoop.runStep, EventLoop.stopStep, Option.or_none] at hstep
    split at hstep <;> cases hstep
    rfl
  | runWaitCqe result =>
    simp only [EventLoop.step, EventLoop.runStep, EventLoop.stopStep, Option.or_none] at hstep
    split at hstep
    . split at hstep
      . cases hstep
        rfl
      . split at hstep <;> cases hstep
        rfl
    . simp at hstep
  | runHandleCqe =>
    simp only [EventLoop.step, EventLoop.runStep, EventLoop.stopStep, Option.or_none] at hstep
    split at hstep
    . rw [Option.map_map, Option.map_eq_some_iff] at hstep
      rcases hstep with ⟨p, hp, heq⟩
      cases heq
      exact ringOf_congr (IOUringProactor.sameRing_handleCqe hp) _
    . simp at hstep
  | runCqeSeen =>
    simp only [EventLoop.step, EventLoop.runStep, EventLoop.stopStep, Option.or_none] at hstep
    split at hstep <;> cases hstep
    rfl
  | stopStore =>
    simp only [EventLoop.step, EventLoop.runStep, EventLoop.stopStep, Option.none_or] at hstep
    split at hstep <;> cases hstep
    rfl
  | stopGetSqe sqe =>
    simp only [EventLoop.step, EventLoop.runStep, EventLoop.stopStep, Option.none_or] at hstep
    split at hstep
    . split at hstep
      . split at hstep <;> cases hstep <;> rfl
      . simp at hstep
    . simp at hstep
  | stopSubmit result =>
    simp only [EventLoop.step, EventLoop.runStep, EventLoop.stopStep, Option.none_or] at hstep
    split at hstep <;> cases hstep
    exact ringOf_submit none _ _ none result

theorem not_unused_of_log {call : RingCall} (h : w'.log = w.log ++ [call]) : ¬ Unused w' := by
  intro hunused
  have hlog := hunused.log
  rw [h] at hlog
  simp at hlog

theorem Unused.congr (h : Unused w) (hlog : w'.log = w.log)
    (hcalls : w'.loop.proactor.calls = w.loop.proactor.calls)
    (hrun : w'.loop.run = .returned ∨ w'.loop.run = .store ∨ w'.loop.run = .load)
    : Unused w' := by
  refine ⟨hlog.trans h.log, ?_, hrun⟩
  rw [hcalls]
  exact h.calls

theorem unused_call_iff {loop : EventLoop} (h : Unused w) (hstep : w.loop.step (.call op) = some (loop, ()))
    : Unused { w with loop := loop, log := w.log ++ op.ringCalls w.loop.proactor } ↔ OpSpares op := by
  cases EventLoop.stepped hstep with
  | call hstop hcqe hop =>
    constructor
    . intro hunused
      by_contra hspares
      rcases unspared_call hop hspares hstop hcqe with hring | ⟨f, call, hcall, hfails⟩
      . have hlog := hunused.log
        dsimp only at hlog
        exact hring (List.append_eq_nil_iff.mp hlog).2
      . exact hfails (hunused.calls f call hcall)
    . intro hspares
      rcases spared_call hop hspares h.calls with ⟨hring, hcalls⟩
      refine ⟨?_, hcalls, h.run⟩
      dsimp only
      rw [hring, h.log]
      rfl
  | run _ hrun => simp [EventLoop.runStep] at hrun
  | stop _ hstop => simp [EventLoop.stopStep] at hstop

theorem unused_tick_iff {tick : Tick} {loop : EventLoop} (h : Unused w)
    (hstep : w.loop.step tick = some (loop, ()))
    : Unused { w with loop := loop, log := w.log ++ ringCalls w.loop tick } ↔ StepSpares w (.tick tick) := by
  cases tick with
  | runWaitCqe result => exact iff_of_false (not_unused_of_log (w := w) rfl) id
  | runCqeSeen => exact iff_of_false (not_unused_of_log (w := w) rfl) id
  | stopGetSqe sqe => exact iff_of_false (not_unused_of_log (w := w) rfl) id
  | stopSubmit result => exact iff_of_false (not_unused_of_log (w := w) rfl) id
  | call op => exact unused_call_iff h hstep
  | runStore =>
    simp only [EventLoop.step, EventLoop.runStep, EventLoop.stopStep, Option.or_none] at hstep
    split at hstep
    . cases hstep
      exact iff_of_true (h.congr (List.append_nil _) rfl (.inr (.inr rfl))) trivial
    . simp at hstep
  | runLoad =>
    simp only [EventLoop.step, EventLoop.runStep, EventLoop.stopStep, Option.or_none] at hstep
    split at hstep
    . next hrun =>
      cases hstep
      cases hrunning : w.loop.proactor.running with
      | true =>
        apply iff_of_false
        . intro hunused
          simpa [hrunning] using hunused.run
        . intro hspares
          exact absurd (hrunning.symm.trans hspares) (by decide)
      | false =>
        refine iff_of_true (h.congr (List.append_nil _) rfl ?_) hrunning
        left
        simp
    . simp at hstep
  | runHandleCqe =>
    simp only [EventLoop.step, EventLoop.runStep, EventLoop.stopStep, Option.or_none] at hstep
    split at hstep
    . next hrun =>
      have hnot := h.run
      rw [hrun] at hnot
      simp at hnot
    . simp at hstep
  | stopStore =>
    simp only [EventLoop.step, EventLoop.runStep, EventLoop.stopStep, Option.none_or] at hstep
    split at hstep
    . cases hstep
      exact iff_of_true (h.congr (List.append_nil _) rfl h.run) trivial
    . simp at hstep
  | complete i result =>
    simp only [EventLoop.step] at hstep
    split at hstep
    . simp at hstep
    . cases hstep
      exact iff_of_true (h.congr (List.append_nil _) rfl h.run) trivial

theorem unused_step_iff (h : Unused w) {u : Unit} (hstep : w.step event = some (w', u))
    : Unused w' ↔ StepSpares w event := by
  unfold step at hstep
  split at hstep
  . simp at hstep
  . cases event with
    | run =>
      dsimp only at hstep
      split at hstep
      . cases hstep
        exact iff_of_true (h.congr rfl rfl (.inr (.inl rfl))) trivial
      . simp at hstep
    | stop =>
      dsimp only at hstep
      split at hstep
      . cases hstep
        exact iff_of_true (h.congr rfl rfl h.run) trivial
      . simp at hstep
    | destroy keys =>
      dsimp only at hstep
      split at hstep
      . cases hstep
        refine iff_of_false ?_ id
        apply not_unused_of_log (w := w) rfl
      . simp at hstep
    | tick tick =>
      dsimp only at hstep
      split at hstep
      . simp at hstep
      . next loop _ htick =>
        cases hstep
        exact unused_tick_iff h htick

theorem unused_init (result : Int32) : Unused (init result) := by
  refine ⟨rfl, ?_, .inl rfl⟩
  intro f call hcall
  simp [init, IOUringProactor.ofEntries] at hcall

theorem log_of_destroyed {trace : List (Event × Unit)} (hrun : Run (ofStep step) (init result) trace w)
    : w.destroyed = true → w.log ≠ [] := by
  apply @Run.invariant _ _ _ _ _ _ _ (fun w => w.destroyed = true → w.log ≠ []) hrun
  . simp [init]
  . intro w₁ event _ w₂ _ hstep
    unfold ofStep step at hstep
    split at hstep
    . simp at hstep
    . next hdestroyed =>
      cases event with
      | destroy keys =>
        dsimp only at hstep
        split at hstep
        . cases hstep
          simp
        . simp at hstep
      | run | stop | tick _ =>
        intro hdestroyed'
        dsimp only at hstep
        split at hstep
        all_goals
          cases hstep <;> exact absurd hdestroyed' hdestroyed

/--
The lives that leave the ring alone where there is none are those that have nothing to do for it. One that comes to
its end is not among them. What is called on the ring is what changes it.
-/
theorem respects_iff (result : Int32) (trace : List (Event × Unit)) (w : Life)
    : (Run (ensure (Respects result) (ofStep step)) (init result) trace w
          ↔
        Run (restrict (Spares result) (ofStep step)) (init result) trace w)
        ∧
      (Run (ofStep step) (init result) trace w → w.destroyed = true →
        (Respects result w ↔ (IOUringProactor.ofEntries result).toBool = true))
        ∧
      ∀ tick w' u, (∀ i result, tick ≠ .complete i result) → w.step (.tick tick) = some (w', u) →
        ∃ calls, w'.log = w.log ++ calls
          ∧ w'.ring = replay (origin w.loop tick) (sqe tick) (submitted tick) calls w.ring := by
  refine ⟨?_, ?_, ?_⟩
  . apply @Run.ensure_iff_restrict _ _ _ _ _ _ _ (fun _ => True) _ _ ⟨trivial, fun _ => unused_init result⟩
    . intros
      trivial
    . intro w₁ event _ w₂ _ h hstep
      unfold Respects Spares at *
      by_cases hresult : result < 0
      . have hiff := unused_step_iff (h hresult) hstep
        simp only [hresult, true_implies]
        exact hiff
      . simp [hresult]
  . intro hrun hdestroyed
    have hlog := log_of_destroyed hrun hdestroyed
    rw [← Bool.not_eq_false, toBool_ofEntries]
    constructor
    . intro h hresult
      exact hlog (h hresult).log
    . intro hresult h
      exact absurd h hresult
  . intro tick w' u hcomplete hstep
    unfold step at hstep
    split at hstep
    . simp at hstep
    . dsimp only at hstep
      split at hstep
      . simp at hstep
      . next loop _ htick =>
        cases hstep
        exact ⟨_, rfl, replay_tick htick hcomplete⟩

-- with a ring
theorem respects_of_ring
    : ∃ trace w, Run (ofStep step) (init 0) trace w ∧ w.destroyed = true ∧ w.log = [.queueExit]
        ∧ (Respects 0 w ↔ (IOUringProactor.ofEntries 0).toBool = true) := by
  have hexec : exec step (init 0) [.destroy []] = some (_, [()]) := rfl
  have hrun := run_of_exec hexec
  exact ⟨_, _, hrun, rfl, rfl, (respects_iff 0 _ _).2.1 hrun rfl⟩

-- `-ENOSYS`, a call that waits, and the destructor
theorem not_respects_without_ring
    : ∃ trace w, Run (ofStep step) (init (-38)) trace w ∧ w.destroyed = true
        ∧ w.log = [.getSqe, .queueExit] ∧ ¬ Respects (-38) w := by
  have hexec : exec step (init (-38)) [.tick (.call (.sleepFor 1 ⟨0, none, none, 0⟩)), .destroy []]
      = some (_, [(), ()]) := rfl
  refine ⟨_, _, run_of_exec hexec, rfl, rfl, ?_⟩
  intro h
  have hlog := (h (by decide)).log
  cases hlog

end Life

end Net

end Sfap
